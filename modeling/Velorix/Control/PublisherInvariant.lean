import Velorix.Control.PublisherWorld

/-! What every call of a publisher keeps of the stores: each object and each publication comes
from a publish that asked for its reservation first, and nothing goes away. -/
namespace Velorix.Control

open Meta Storage

section Invariant
variable {x : External} {hash : Hash} {w later : World}

/-- A publish that got as far as to ask for its reservation. -/
def Attempt (hash : Hash) (world : World) (prepared : Prepared) (payload : Bytes) : Prop :=
  ∃ config startOffset endOffset, prepared.authority.key = config.authorityKey ∧
    prepare hash config prepared.authority startOffset endOffset payload = .ok prepared ∧
    ∃ result, .reserveRelationAuthoritativeIngestRange prepared.reserveRequest result ∈
      world.requests

/-- An object with the digest is in the store. -/
def Staged (hash : Hash) (world : World) (key : ObjectKey) (digest : String) : Prop :=
  ∃ payload, world.objects.lookup key = some payload ∧ hash.digestBytes payload = digest

structure WorldInv (external : External) (hash : Hash) (world : World) : Prop where
  run : Trace (Step external) {} world.requests world.metadata
  tokens : ∀ id publisher token, world.publishers id = some publisher →
    publisher.token = some token → token.key = publisher.config.authorityKey
  attempted : ∀ key payload, world.objects.lookup key = some payload →
    ∃ prepared, Attempt hash world prepared payload ∧ prepared.stagingKey = key
  published : ∀ publication ∈ relationPublications world.requests, ∃ prepared payload,
    Attempt hash world prepared payload ∧ prepared.publishRequest.publication = publication ∧
      Staged hash world prepared.stagingKey prepared.reservation.payloadDigest

structure WorldGrows (external : External) (world later : World) : Prop where
  requests : ∃ log, later.requests = world.requests ++ log ∧
    Trace (Step external) world.metadata log later.metadata
  objects : ∀ key payload, world.objects.lookup key = some payload →
    later.objects.lookup key = some payload
  publishers : ∀ id publisher, world.publishers id = some publisher →
    ∃ publisher', later.publishers id = some publisher' ∧ publisher'.config = publisher.config

theorem WorldGrows.refl (w : World) : WorldGrows x w w :=
  ⟨⟨[], (List.append_nil _).symm, .nil⟩, fun _ _ h => h, fun _ publisher h => ⟨publisher, h, rfl⟩⟩

theorem WorldGrows.trans {last : World} (h : WorldGrows x w later)
    (h' : WorldGrows x later last) : WorldGrows x w last := by
  refine ⟨?_, ?_, ?_⟩
  · obtain ⟨log, hlog, ht⟩ := h.requests
    obtain ⟨log', hlog', ht'⟩ := h'.requests
    exact ⟨log ++ log', by rw [hlog', hlog, List.append_assoc], ht.append ht'⟩
  · intro key b hl
    exact h'.objects key b (h.objects key b hl)
  · intro id publisher hl
    obtain ⟨middle, hm, hc⟩ := h.publishers id publisher hl
    obtain ⟨last, hlast, hc'⟩ := h'.publishers id middle hm
    exact ⟨last, hlast, hc'.trans hc⟩

theorem WorldGrows.subset (h : WorldGrows x w later) : w.requests ⊆ later.requests := by
  obtain ⟨log, hlog, -⟩ := h.requests
  rw [hlog]
  exact List.subset_append_left _ _

theorem Attempt.grow {prep : Prepared} {b : Bytes} (h : Attempt hash w prep b)
    (hg : WorldGrows x w later) : Attempt hash later prep b := by
  obtain ⟨c, lo, hi, hk, hp, result, hm⟩ := h
  exact ⟨c, lo, hi, hk, hp, result, hg.subset hm⟩

theorem Staged.grow {key : ObjectKey} {digest : String} (h : Staged hash w key digest)
    (hg : WorldGrows x w later) : Staged hash later key digest := by
  obtain ⟨b, hl, hd⟩ := h
  exact ⟨b, hg.objects key b hl, hd⟩

def publisherSetting (external : External) (hash : Hash) : Setting Op Reply World where
  calls := Calls
  Inv := WorldInv external hash
  Grows := WorldGrows external
  refl := WorldGrows.refl
  trans := WorldGrows.trans

/-- What a call relies on to keep the invariant. -/
def Op.Allowed (hash : Hash) (world : World) : Op → Prop
  | .publishRelationIngestReservation request => ∃ prepared payload,
    Attempt hash world prepared payload ∧ prepared.publishRequest = request ∧
      Staged hash world prepared.stagingKey prepared.reservation.payloadDigest
  | .put key payload => ∃ prepared, Attempt hash world prepared payload ∧ prepared.stagingKey = key
  | .storeToken id token => ∀ found publisher, token = some found →
    world.publishers id = some publisher → found.key = publisher.config.authorityKey
  | _ => True

theorem grows_record {metadata : InMemoryMetaState} {e : Event}
    (hs : Step x w.metadata e metadata) : WorldGrows x w (w.record metadata e) :=
  ⟨⟨[e], rfl, Trace.nil.snoc hs⟩, fun _ _ h => h, fun _ publisher h => ⟨publisher, h, rfl⟩⟩

theorem WorldInv.record (h : WorldInv x hash w) {next : InMemoryMetaState}
    {e : Event} (hs : Step x w.metadata e next)
    (hp : ∀ pub, e.publication = some pub → ∃ prep b, Attempt hash w prep b ∧
        prep.publishRequest.publication = pub ∧
        Staged hash w prep.stagingKey prep.reservation.payloadDigest) :
    WorldInv x hash (w.record next e) := by
  have hg := grows_record hs
  refine ⟨h.run.snoc hs, h.tokens, ?_, ?_⟩
  · intro key b hl
    obtain ⟨prep, ha, hk⟩ := h.attempted key b hl
    exact ⟨prep, ha.grow hg, hk⟩
  · intro pub hm
    have hm : pub ∈ relationPublications (w.requests ++ [e]) := hm
    rw [relationPublications_snoc, List.mem_append, Option.mem_toList] at hm
    obtain ⟨prep, b, ha, hpub, hstaged⟩ := hm.elim
      (h.published pub) (hp pub)
    exact ⟨prep, b, ha.grow hg, hpub, hstaged.grow hg⟩

theorem grows_update (x : External) (w : World) (id : ℕ) {c : Publisher → Publisher}
    (hc : ∀ publisher, (c publisher).config = publisher.config) :
    WorldGrows x w (w.update id c) := by
  refine ⟨(WorldGrows.refl w).requests, fun _ _ h => h, ?_⟩
  intro id' publisher hl
  show ∃ publisher', Function.update w.publishers id _ id' = some publisher' ∧ _
  rw [Function.update_apply]
  split_ifs with hid
  · subst hid
    rw [hl]
    exact ⟨c publisher, rfl, hc publisher⟩
  · exact ⟨publisher, hl, rfl⟩

theorem WorldInv.update (h : WorldInv x hash w) (id : ℕ) {c : Publisher → Publisher}
    (ht : ∀ publisher t, w.publishers id = some publisher →
      (c publisher).token = some t → t.key = (c publisher).config.authorityKey) :
    WorldInv x hash (w.update id c) := by
  refine ⟨h.run, ?_, h.attempted, h.published⟩
  intro id' publisher t hl hh
  have hl : Function.update w.publishers id ((w.publishers id).map c) id' = some publisher := hl
  rw [Function.update_apply] at hl
  split_ifs at hl with hid
  · obtain ⟨old, hold, rfl⟩ := Option.map_eq_some_iff.mp hl
    exact ht old t hold hh
  · exact h.tokens id' publisher t hl hh

/-- Every allowed call keeps the invariant, whether its reply arrives or not. -/
theorem WorldInv.answer (h : WorldInv x hash w) {op : Op} (hop : op.Allowed hash w) :
    WorldInv x hash (w.answer op).2 ∧ WorldGrows x w (w.answer op).2 := by
  have hsame : WorldInv x hash w ∧ WorldGrows x w w := ⟨h, .refl w⟩
  cases op with
  | acquireRelationPartitionAuthority q explicitReacquire =>
    have hs : Step x w.metadata _ _ := .acquireRelationPartitionAuthority
      (Prod.mk.eta (p := w.metadata.acquireRelationPartitionAuthority q explicitReacquire)).symm
    exact ⟨h.record hs nofun, grows_record hs⟩
  | reserveRelationAuthoritativeIngestRange q =>
    have hs : Step x w.metadata _ _ := .reserveRelationAuthoritativeIngestRange
      (Prod.mk.eta (p := w.metadata.reserveRelationAuthoritativeIngestRange q)).symm
    exact ⟨h.record hs nofun, grows_record hs⟩
  | publishRelationIngestReservation q =>
    have hs : Step x w.metadata _ _ := .publishRelationIngestReservation
      (Prod.mk.eta (p := w.metadata.publishRelationIngestReservation q)).symm
    refine ⟨h.record hs ?_, grows_record hs⟩
    intro pub hp
    obtain ⟨prep, b, ha, rfl, hstaged⟩ := hop
    refine ⟨prep, b, ha, ?_, hstaged⟩
    unfold Event.publication at hp
    split at hp
    · rename_i heq
      rw [Event.publishRelationIngestReservation.injEq] at heq
      rw [heq.1]
      exact Option.some.inj hp
    · cases hp
  | put key b =>
    simp only [World.answer]
    split
    · exact hsame
    · rename_i hf
      obtain ⟨prep, ha, hk⟩ := hop
      have hg : WorldGrows x w
          { w with objects := w.objects.insert key b } := by
        exact ⟨(WorldGrows.refl w).requests,
          fun _ _ => HashMap.lookup_insert_of_some hf, fun _ publisher h => ⟨publisher, h, rfl⟩⟩
      refine ⟨⟨h.run, h.tokens, ?_, ?_⟩, hg⟩
      · intro key' b' hl
        rcases HashMap.of_lookup_insert hl with ⟨rfl, rfl⟩ | hl
        · exact ⟨prep, ha.grow hg, hk⟩
        · obtain ⟨prep', ha', hk'⟩ := h.attempted key' b' hl
          exact ⟨prep', ha'.grow hg, hk'⟩
      · intro pub hm
        obtain ⟨prep', b', ha', hpub, hstaged⟩ :=
          h.published pub hm
        exact ⟨prep', b', ha'.grow hg, hpub, hstaged.grow hg⟩
  | get key =>
    simp only [World.answer]
    split <;> exact hsame
  | storeCapabilityValidated id | swapRestartReacquireAttempted id =>
    exact ⟨h.update id fun publisher t hl ht => h.tokens id publisher t hl
      ht, grows_update x w id fun _ => rfl⟩
  | storeToken id t =>
    exact ⟨h.update id fun publisher found hl ht => hop found publisher ht hl,
      grows_update x w id fun _ => rfl⟩
  | _ => exact hsame

theorem WorldInv.calls (h : WorldInv x hash w) {op : Op} {reply : Reply op}
    (hop : op.Allowed hash w) (hc : Calls w op reply later) :
    WorldInv x hash later ∧ WorldGrows x w later := by
  rcases Unreliable.calls_cases hc with ⟨-, rfl⟩ | ⟨-, rfl | rfl⟩
  · exact h.answer hop
  · exact h.answer hop
  · exact ⟨h, .refl later⟩

end Invariant

end Velorix.Control
