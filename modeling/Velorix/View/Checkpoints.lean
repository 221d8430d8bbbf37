import Velorix.Foundation.ReplaceFirst
import Velorix.View.Epoch

/-! What the checkpoints of view runtimes have in common: frontiers are checked against the
catalogs, and the epochs that were applied are limited in number. -/
namespace Velorix.View

open Delta Result List SortedMap BlankText

def invalidCheckpoint : RuntimeError := .invalidProgramIdentity "generic_checkpoint_payload"

def ArrowPhysicalType.isEventTime : ArrowPhysicalType → Bool
  | .int64 | .date32 | .timestampNanosecond _ => true
  | _ => false

/-- The column is the event time of the relation, and of a type that can be one. -/
def Catalog.hasEventTime (catalog : Catalog) (columnId : String) : Bool :=
  catalog.eventTimeColumnId = some columnId ∧
    (catalog.column columnId).any (·.physicalType.isEventTime)

def catalogOf (catalogs : List Catalog) (frontier : InputEventTimeFrontier) : Option Catalog :=
  catalogs.find? fun catalog => catalog.relationId = frontier.relationId ∧
    catalog.relationVersion = frontier.relationVersion ∧
    catalog.schemaFingerprint = frontier.schemaFingerprint

def InputEventTimeFrontier.place (frontier : InputEventTimeFrontier) :
    String × String × String × String × UInt32 :=
  (frontier.relationId, frontier.relationVersion, frontier.schemaFingerprint, frontier.streamId,
    frontier.partitionId)

def validateInputEventTimeFrontiersForCatalogs (catalogs : List Catalog) :
    List (String × String × String × String × UInt32) → List InputEventTimeFrontier →
      Except RuntimeError Unit
  | _, [] => .ok ()
  | seen, frontier :: rest =>
    if isBlank frontier.streamId ∨ isBlank frontier.eventTimeColumnId ∨
        frontier.maxObservedEventTimeNs < frontier.watermarkNs then .error invalidCheckpoint
    else if frontier.place ∈ seen then .error invalidCheckpoint
    else if (catalogOf catalogs frontier).any (·.hasEventTime frontier.eventTimeColumnId)
    then validateInputEventTimeFrontiersForCatalogs catalogs
      (frontier.place :: seen) rest
    else .error invalidCheckpoint

/-- Frontiers as the advances of a run leave them. -/
structure WellFormed (frontiers : List InputEventTimeFrontier) : Prop where
  stated : ∀ frontier ∈ frontiers, isBlank frontier.streamId = false ∧
    isBlank frontier.eventTimeColumnId = false ∧
    frontier.watermarkNs ≤ frontier.maxObservedEventTimeNs
  apart : (frontiers.map (·.place)).Nodup

/-- Every frontier is for the event time of its relation. -/
def EventTimesKnown (catalogs : List Catalog) (frontiers : List InputEventTimeFrontier) : Prop :=
  ∀ frontier ∈ frontiers,
    (catalogOf catalogs frontier).any (·.hasEventTime frontier.eventTimeColumnId) = true

section EventTimes
variable {fs later : List InputEventTimeFrontier} {catalogs : List Catalog} {i : RelationInputBatch}

theorem validateFrontiers_iff {seen : List (String × String × String × String × UInt32)}
    (h : WellFormed fs) (hseen : ∀ f ∈ fs, f.place ∉ seen) :
    validateInputEventTimeFrontiersForCatalogs catalogs seen fs = .ok () ↔
      EventTimesKnown catalogs fs := by
  induction fs generalizing seen with
  | nil => exact ⟨fun _ _ hm => absurd hm not_mem_nil, fun _ => rfl⟩
  | cons f rest ih =>
    obtain ⟨hstream, hc, hw⟩ := h.stated f mem_cons_self
    obtain ⟨hnew, ha⟩ := nodup_cons.mp h.apart
    have hr : WellFormed rest :=
      ⟨fun other ho => h.stated other (mem_cons_of_mem f ho), ha⟩
    have ho : ∀ other ∈ rest, other.place ∉ f.place :: seen := by
      intro other ho hm
      rcases mem_cons.mp hm with heq | hm
      · exact hnew (mem_map.mpr ⟨other, ho, heq⟩)
      · exact hseen other (mem_cons_of_mem f ho) hm
    have hs : ¬ (isBlank f.streamId = true ∨ isBlank f.eventTimeColumnId = true ∨
        f.maxObservedEventTimeNs < f.watermarkNs) := by
      rw [hstream, hc]
      simpa using hw
    rw [validateInputEventTimeFrontiersForCatalogs, if_neg hs, if_neg (hseen f mem_cons_self)]
    split_ifs with hk
    · rw [ih hr ho]
      exact ⟨fun hall => forall_mem_cons.mpr ⟨hk, hall⟩,
        fun hall => (forall_mem_cons.mp hall).2⟩
    · exact ⟨nofun, fun hall => absurd (hall f mem_cons_self) hk⟩

theorem isOf_iff {f : InputEventTimeFrontier} {wm : InputEventTimeWatermark} :
    f.isOf i wm = true ↔ f.place = (i.relationId,
      i.relationVersion, i.schemaFingerprint, wm.streamId, wm.partitionId) := by
  simp [InputEventTimeFrontier.isOf, InputEventTimeFrontier.place]

theorem WellFormed.perm (h : WellFormed fs) (hp : later.Perm fs) : WellFormed later :=
  ⟨fun f hm => h.stated f (hp.mem_iff.mp hm), (hp.map _).nodup_iff.mpr h.apart⟩

/-- An input keeps the frontiers well formed. -/
theorem WellFormed.advance (h : WellFormed fs)
    (ha : advanceInputEventTimeFrontier fs i = .ok later) : WellFormed later := by
  rw [advanceInputEventTimeFrontier] at ha
  split at ha
  · cases ha
    exact h
  · rename_i wm _
    split_ifs at ha with hb hbehind
    have hs : isBlank wm.streamId = false ∧ isBlank wm.eventTimeColumnId = false ∧
        wm.watermarkNs ≤ wm.maxObservedEventTimeNs := by
      rw [not_or, Bool.not_eq_true, Bool.not_eq_true] at hb
      exact ⟨hb.1, hb.2, not_lt.mp hbehind⟩
    split at ha
    · split_ifs at ha
      cases ha
      refine WellFormed.perm ⟨?_, ?_⟩ (perm_insertionSort _ _)
      · intro f hm
        rcases mem_replaceF hm with hm | ⟨before, hbefore, hr⟩
        · exact h.stated f hm
        · split_ifs at hr
          cases hr
          obtain ⟨hstream, hc, -⟩ := h.stated before hbefore
          exact ⟨hstream, hc, hs.2.2⟩
      · rw [map_replaceF]
        · exact h.apart
        · intro before after hr
          split_ifs at hr
          cases hr
          rfl
    · rename_i hn
      cases ha
      refine WellFormed.perm ⟨?_, ?_⟩ (perm_insertionSort _ _)
      · intro f hm
        rcases mem_append.mp hm with hm | hm
        · exact h.stated f hm
        · cases mem_singleton.mp hm
          exact hs
      · rw [map_append, nodup_append]
        refine ⟨h.apart, nodup_singleton _, ?_⟩
        intro place hp other ho heq
        obtain ⟨f, hf, rfl⟩ := mem_map.mp hp
        cases mem_singleton.mp ho
        exact find?_eq_none.mp hn f hf (isOf_iff.mpr heq)

theorem WellFormed.progress {progress next : Progress}
    (h : WellFormed progress.inputEventTimeFrontiers) (ha : progress.advance i = .ok next) :
    WellFormed next.inputEventTimeFrontiers := by
  obtain ⟨_, -, ha⟩ := bind_eq_ok.mp ha
  obtain ⟨later, hl, ha⟩ := bind_eq_ok.mp ha
  cases ha
  exact h.advance hl

end EventTimes

def validatePublishedOutput (output : DeltaBatch) : Except RuntimeError Unit := do
  let rows ← orInvalidState output.netRows
  rows.forM fun row => if row.weight.val ≠ 1 then .error invalidRuntimeState else .ok ()

/-- The epochs of a checkpoint end with its own. -/
def appliedEpochsFit (appliedEpochs : SortedMap String LogicalEpoch)
    (logicalEpoch : LogicalEpoch) : Bool :=
  appliedEpochs.values.all (· ≤ logicalEpoch) ∧ (logicalEpoch = 0 → appliedEpochs.isEmpty) ∧
    (0 < logicalEpoch → appliedEpochs.values.max? = some logicalEpoch)

structure Retained (epochs : SortedMap String LogicalEpoch) : Prop where
  short : ∀ entry ∈ epochs.entries, entry.1.utf8ByteSize ≤ maxIdempotencyKeyBytes
  few : epochs.size ≤ maxRetainedIdempotencyKeys

section AppliedEpochs
variable {epochs : SortedMap String LogicalEpoch} {key : String} {epoch : LogicalEpoch}

theorem entries_foldl_erase (epochs : SortedMap String LogicalEpoch)
    (gone : List (String × LogicalEpoch)) :
    (gone.foldl (fun epochs e => epochs.erase e.1) epochs).entries =
      epochs.entries.filter fun e => e.1 ∉ gone.map Prod.fst := by
  induction gone generalizing epochs with
  | nil => simp
  | cons e gone ih =>
    rw [foldl_cons, ih]
    show (SortedMap.eraseEntry e.1 epochs.entries).filter _ = _
    rw [SortedMap.eraseEntry, filter_filter]
    apply filter_congr
    intro other _
    rw [Bool.eq_iff_iff]
    simp only [Bool.and_eq_true, decide_eq_true_eq, map_cons, mem_cons, not_or, ne_eq]
    exact and_comm

/-- The entries in the order in which they are dropped. -/
def oldestFirst (epochs : SortedMap String LogicalEpoch) : List (String × LogicalEpoch) :=
  sortByKey (fun entry : String × LogicalEpoch => toLex (entry.2, entry.1)) epochs.entries

def shortKeys (epochs : SortedMap String LogicalEpoch) : SortedMap String LogicalEpoch :=
  .ofList (epochs.entries.filter fun entry => entry.1.utf8ByteSize ≤ maxIdempotencyKeyBytes)

theorem entries_ofList_filter (epochs : SortedMap String LogicalEpoch)
    (keep : String × LogicalEpoch → Bool) :
    (SortedMap.ofList (epochs.entries.filter keep)).entries = epochs.entries.filter keep := by
  have hs : (epochs.entries.filter keep).Pairwise fun a b => a.1 < b.1 :=
    epochs.sorted.filter keep
  exact congrArg SortedMap.entries (ofList_entries ⟨_, hs⟩)

theorem entries_retain (epochs : SortedMap String LogicalEpoch) :
    (retainRecentAppliedEpochs epochs).entries = (shortKeys epochs).entries.filter fun e =>
      e.1 ∉ ((oldestFirst (shortKeys epochs)).take
        ((shortKeys epochs).size - maxRetainedIdempotencyKeys)).map Prod.fst :=
  entries_foldl_erase _ _

variable {e : String × LogicalEpoch}

theorem mem_shortKeys : e ∈ (shortKeys epochs).entries ↔
    e ∈ epochs.entries ∧ e.1.utf8ByteSize ≤ maxIdempotencyKeyBytes := by
  rw [shortKeys, entries_ofList_filter, mem_filter, decide_eq_true_eq]

theorem perm_oldestFirst (epochs : SortedMap String LogicalEpoch) :
    (oldestFirst epochs).Perm epochs.entries := perm_insertionSort _ _

theorem Retained.retain_eq (h : Retained epochs) : retainRecentAppliedEpochs epochs = epochs := by
  have hs : shortKeys epochs = epochs := by
    apply entries_injective
    rw [shortKeys, entries_ofList_filter]
    exact filter_eq_self.mpr fun e he => decide_eq_true (h.short e he)
  apply entries_injective
  rw [entries_retain, hs, Nat.sub_eq_zero_of_le h.few]
  simp

theorem retained_retain (epochs : SortedMap String LogicalEpoch) :
    Retained (retainRecentAppliedEpochs epochs) where
  short := by
    intro e he
    rw [entries_retain] at he
    exact (mem_shortKeys.mp (mem_filter.mp he).1).2
  few := by
    have hp := perm_oldestFirst (shortKeys epochs)
    have hl : (oldestFirst (shortKeys epochs)).length = (shortKeys epochs).size :=
      hp.length_eq
    rw [SortedMap.size, entries_retain, ← (hp.filter _).length_eq]
    -- nothing of what is dropped is left
    rw [← take_append_drop ((shortKeys epochs).size - maxRetainedIdempotencyKeys)
      (oldestFirst (shortKeys epochs)), filter_append, length_append]
    have hg : ((oldestFirst (shortKeys epochs)).take
        ((shortKeys epochs).size - maxRetainedIdempotencyKeys)).filter (fun e =>
          e.1 ∉ ((oldestFirst (shortKeys epochs)).take
            ((shortKeys epochs).size - maxRetainedIdempotencyKeys)).map Prod.fst) = [] := by
      refine filter_eq_nil_iff.mpr fun e he => ?_
      simpa using mem_map_of_mem he
    rw [take_append_drop, hg, length_nil, zero_add]
    refine (length_filter_le _ _).trans ?_
    rw [length_drop, hl]
    omega

theorem oldestFirst_sorted (epochs : SortedMap String LogicalEpoch) :
    (oldestFirst epochs).Pairwise fun a b => toLex (a.2, a.1) ≤ toLex (b.2, b.1) :=
  pairwise_insertionSort _ _

/-- A newest epoch under a short key is retained. -/
theorem find?_retain_insert (hkey : key.utf8ByteSize ≤ maxIdempotencyKeyBytes)
    (hnew : ∀ e ∈ epochs.entries, e.2 < epoch) :
    (retainRecentAppliedEpochs (epochs.insert key epoch)).find? key = some epoch := by
  have hm : (key, epoch) ∈ (shortKeys (epochs.insert key epoch)).entries :=
    mem_shortKeys.mpr
      ⟨mem_entries_iff.mpr (find?_insert_self epochs key epoch), hkey⟩
  rw [← mem_entries_iff, entries_retain, mem_filter]
  refine ⟨hm, decide_eq_true fun hg => ?_⟩
  generalize hk : shortKeys (epochs.insert key epoch) = kept at hm hg
  have hp := perm_oldestFirst kept
  have hs := oldestFirst_sorted kept
  have hn : (oldestFirst kept).Nodup := hp.nodup_iff.mpr kept.entries_nodup
  have hfewer : kept.size - maxRetainedIdempotencyKeys < (oldestFirst kept).length := by
    have hpos := length_pos_of_mem hm
    rw [hp.length_eq, SortedMap.size, maxRetainedIdempotencyKeys]
    omega
  rw [← take_append_drop (kept.size - maxRetainedIdempotencyKeys) (oldestFirst kept)]
    at hs hn
  obtain ⟨e, he, hfst⟩ := mem_map.mp hg
  have hv : e = (key, epoch) := by
    have hin := mem_entries_iff.mp
      (hp.mem_iff.mp (mem_of_mem_take he) : (e.1, e.2) ∈ kept.entries)
    rw [hfst, mem_entries_iff.mp hm] at hin
    exact Prod.ext hfst (Option.some.inj hin).symm
  -- whatever stays is not newer than the entry that is dropped
  obtain ⟨other, ho⟩ := exists_mem_of_length_pos
    (show 0 < ((oldestFirst kept).drop (kept.size - maxRetainedIdempotencyKeys)).length by
      rw [length_drop]
      omega)
  have hle := (pairwise_append.mp hs).2.2 e he other ho
  have hne : e ≠ other := fun heq =>
    (nodup_append.mp hn).2.2 e he other ho heq
  have hi := (mem_shortKeys.mp (hk ▸ hp.mem_iff.mp (mem_of_mem_drop ho))).1
  have hf := mem_entries_iff.mp (show (other.1, other.2) ∈ _ from hi)
  rw [find?_insert] at hf
  rw [hv] at hle hne
  split_ifs at hf with hsame
  · exact hne (Prod.ext hsame (Option.some.inj hf))
  · have holder := hnew other (mem_entries_iff.mpr hf)
    exact absurd hle (not_le.mpr (Prod.Lex.toLex_lt_toLex.mpr (.inl holder)))

theorem mem_of_mem_retain
    (h : e ∈ (retainRecentAppliedEpochs epochs).entries) : e ∈ epochs.entries := by
  rw [entries_retain] at h
  exact (mem_shortKeys.mp (mem_filter.mp h).1).1

/-- The epochs that a runtime has applied, its latest one among them. -/
structure Progress.EpochsFit (progress : Progress) : Prop where
  retained : Retained progress.appliedEpochs
  bounded : ∀ entry ∈ progress.appliedEpochs.entries, entry.2 ≤ progress.logicalEpoch
  first : progress.logicalEpoch = 0 → progress.appliedEpochs = ∅
  latest : 0 < progress.logicalEpoch →
    ∃ key, progress.appliedEpochs.find? key = some progress.logicalEpoch

theorem epochsFit_start : Progress.EpochsFit {} where
  retained := ⟨fun _ h => absurd h not_mem_nil, Nat.zero_le _⟩
  bounded := fun _ h => absurd h not_mem_nil
  first := fun _ => rfl
  latest := fun h => absurd h (lt_irrefl (0 : UInt64))

variable {progress next : Progress}

theorem Progress.EpochsFit.commit (h : progress.EpochsFit)
    (hsame : next.appliedEpochs = progress.appliedEpochs) (hnew : progress.logicalEpoch < epoch)
    (hkey : key.utf8ByteSize ≤ maxIdempotencyKeyBytes) : (next.commit epoch key).EpochsFit := by
  have hb : ∀ e ∈ (retainRecentAppliedEpochs
      (progress.appliedEpochs.insert key epoch)).entries, e.2 ≤ epoch := by
    intro e he
    have hf := mem_entries_iff.mp
      (show (e.1, e.2) ∈ _ from mem_of_mem_retain he)
    rw [find?_insert] at hf
    split_ifs at hf
    · cases hf
      exact le_rfl
    · exact (h.bounded e (mem_entries_iff.mpr hf)).trans hnew.le
  have hpos : epoch ≠ 0 := by
    rintro rfl
    exact absurd hnew (not_lt.mpr UInt64.zero_le)
  have hl := find?_retain_insert hkey fun e he =>
    (h.bounded e he).trans_lt hnew
  have hr := retained_retain (progress.appliedEpochs.insert key epoch)
  have hc : (next.commit epoch key).appliedEpochs =
      retainRecentAppliedEpochs (progress.appliedEpochs.insert key epoch) := by
    rw [Progress.commit, hsame]
  rw [← hc] at hb hl hr
  exact ⟨hr, hb, fun hz => absurd hz hpos, fun _ => ⟨key, hl⟩⟩

theorem Progress.EpochsFit.appliedEpochsFit (h : progress.EpochsFit) :
    appliedEpochsFit progress.appliedEpochs progress.logicalEpoch = true := by
  have hb : ∀ epoch ∈ progress.appliedEpochs.values, epoch ≤ progress.logicalEpoch := by
    intro epoch hepoch
    obtain ⟨e, he, rfl⟩ := mem_map.mp hepoch
    exact h.bounded e he
  rw [View.appliedEpochsFit, decide_eq_true_eq]
  refine ⟨all_eq_true.mpr fun epoch hepoch => decide_eq_true (hb epoch hepoch), ?_, ?_⟩
  · intro hz
    rw [h.first hz]
    rfl
  · intro hpos
    obtain ⟨key, hkey⟩ := h.latest hpos
    exact max?_eq_some_iff.mpr ⟨mem_values_iff.mpr ⟨key, hkey⟩, hb⟩

theorem Progress.advance_same {i : RelationInputBatch}
    (h : progress.advance i = .ok next) :
    next.appliedEpochs = progress.appliedEpochs ∧ next.logicalEpoch = progress.logicalEpoch := by
  obtain ⟨_, -, h⟩ := bind_eq_ok.mp h
  obtain ⟨_, -, h⟩ := bind_eq_ok.mp h
  cases h
  exact ⟨rfl, rfl⟩

theorem Progress.gate_open (h : progress.gate epoch key = .ok .open) :
    progress.logicalEpoch < epoch := by
  rw [Progress.gate] at h
  split at h
  · split_ifs at h
    cases h
  · split_ifs at h with hle
    exact not_le.mp hle

end AppliedEpochs

end Velorix.View
