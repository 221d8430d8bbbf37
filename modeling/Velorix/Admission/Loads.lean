import Velorix.Admission.Reads

/-! What a coordinator learns about the chain of the index when it reads the store. -/
namespace Velorix.Admission

open FallibleProgram Setting

section Setting
variable {f : Formats} {world later : World}

/-- Every call comes in order, and no two states of the index have one digest. -/
def indexSetting (formats : Formats) : Setting Op Reply World where
  calls world op reply later :=
    Calls world op reply later ∧ InOrder world op later ∧ CollisionFree formats later
  Inv := IndexInv formats
  Grows := WorldGrows
  refl := WorldGrows.refl
  trans := WorldGrows.trans

theorem IndexInv.calls (h : IndexInv f world) {op : Op} {reply : Reply op} (ha : op.Allowed f world)
    (hc : (indexSetting f).calls world op reply later) :
    IndexInv f later ∧ WorldGrows world later := by
  obtain ⟨hc, ho, hf⟩ := hc
  refine ⟨?_, hc.grows⟩
  rcases Unreliable.calls_cases hc with ⟨-, rfl⟩ | ⟨-, rfl | rfl⟩
  · exact h.answer ha ho hf
  · exact h.answer ha ho hf
  · exact h

/-- A program that keeps the chain, and what it returns. -/
abbrev Keeps {α : Type} (formats : Formats) (post : α → World → Prop) (program : Storing α)
    (world : World) : Prop := (indexSetting formats).Returns post program world

theorem Op.Reads.allowed {op : Op} (h : op.Reads) : op.Allowed f world := by
  cases op <;> trivial

theorem keeps_of_reads {α : Type} {p : Storing α} (h : Only Op.Reads p) :
    Keeps f (fun _ _ => True) p world :=
  returns_of_only h fun hr hinv hc => IndexInv.calls hinv hr.allowed hc

theorem keeps_call {α : Type} {op : Op} {post : α → World → Prop} {next : Reply op → Storing α}
    (ha : ∀ later, WorldGrows world later → IndexInv f later → op.Allowed f later)
    (hn : ∀ later, WorldGrows world later → IndexInv f later → ∀ reply last,
      Calls later op reply last → WorldGrows later last → IndexInv f last →
      Keeps f post (next reply) last) : Keeps f post (op.ask >>= next) world := by
  refine returns_call fun later hg hinv reply last hc => ?_
  obtain ⟨hinv', hg'⟩ := IndexInv.calls hinv (ha later hg hinv) hc
  exact ⟨hinv', hg', hn later hg hinv reply last hc.1 hg' hinv'⟩

theorem overStore_index (f : Formats) : OverStore (indexSetting f) where
  calls h := h.1
  grows h := h
  keyed hinv := ⟨fun r rec hl => (IndexInv.materialized hinv r rec hl).2, by
    intro r decisionId decision hl
    rw [IndexInv.undecided hinv] at hl
    cases hl⟩
  reads hr hinv hc := IndexInv.calls hinv hr.allowed hc

end Setting

section Listings
variable {f : Formats} {world later : World} {i : String × UInt32} {bodies : List AdmissionRecord}

theorem keeps_listAdmissionExpiryDecisions :
    Keeps f (fun decisions _ => decisions = []) listAdmissionExpiryDecisions world := by
  refine (overStore_index f).returns_listAdmissionExpiryDecisions.weaken ?_
  rintro decisions later - - ⟨middle, -, -, hinv, hd⟩
  refine List.eq_nil_iff_forall_not_mem.mpr fun decision hdec => ?_
  have hl := (hd decision).mp hdec
  rw [IndexInv.undecided hinv] at hl
  cases hl

/-- Every record that is listed is active. -/
theorem keeps_listActiveAdmissionRecords (hinv : IndexInv f world) :
    Keeps f (AtMoment (indexSetting f) world fun active middle =>
      Snapshot middle active) (listActiveAdmissionRecords f) world := by
  refine Returns.bind hinv ((keeps_of_reads reads_listCommitted).weaken ?_)
  intro committed first hf hinv₁ _
  refine Returns.bind hinv₁ (keeps_listAdmissionExpiryDecisions.weaken ?_)
  intro decisions second hsecond hinv₂ hd
  subst hd
  refine Returns.bind hinv₂ ((overStore_index f).returns_listAdmissionRecordBodies.weaken ?_)
  rintro bodies third - hinv₃ ⟨middle, hm, ht, hinvm, hsnapshot⟩
  refine Returns.bind hinv₃ ((returns_forEach (P := fun admission result _ =>
    result = some admission) hinv₃ (fun h _ => h) ?_).weaken ?_)
  · intro admission _ start _ hi
    simp only [List.any_nil, Bool.false_eq_true, if_false]
    split_ifs
    · refine Returns.bind hi
        ((keeps_of_reads (reads_validateCommittedAdmission _ _ _)).weaken ?_)
      intro _ _ _ _ _
      exact returns_pure fun _ _ _ => rfl
    · exact returns_pure fun _ _ _ => rfl
  · intro results last hlast _ hr
    refine returns_pure fun later hl _ => ⟨middle, hf.trans (hsecond.trans hm),
      ht.trans (hlast.trans hl), hinvm, ?_⟩
    have ha : results.filterMap id = bodies := by
      have hs := List.forall₂_map_left_iff.mpr (hr.imp fun _ _ h => h.symm)
      rw [List.forall₂_eq_eq_eq] at hs
      rw [← hs, List.filterMap_map]
      exact List.filterMap_some
    rwa [ha]

theorem keeps_listExpiredOrphanAdmissionKeys (hinv : IndexInv f world) :
    Keeps f (fun expired _ => expired = []) (listExpiredOrphanAdmissionKeys f i bodies) world := by
  refine Returns.bind hinv (keeps_listAdmissionExpiryDecisions.weaken ?_)
  intro decisions first _ hinv₁ hd
  subst hd
  refine Returns.bind hinv₁ ((returns_forEach (P := fun _ result _ => result = none) hinv₁
    (fun h _ => h) ?_).weaken ?_)
  · intro admission _ start _ hi
    simp only [List.any_nil, Bool.false_eq_true, if_false]
    split_ifs
    · exact returns_pure fun _ _ _ => rfl
    · refine Returns.bind hi ((keeps_of_reads (reads_objectExists _)).weaken ?_)
      intro present _ _ _ _
      cases present <;> exact returns_pure fun _ _ _ => rfl
  · intro results last _ _ hr
    refine returns_pure fun _ _ _ => List.filterMap_eq_nil_iff.mpr fun result hres => ?_
    obtain ⟨_, -, hn⟩ := hr.exists_of_mem_right hres
    exact hn

/-- The transition starts from a state that the index passed through. -/
def LinkedAt (formats : Formats) (world : World) (slot : String × UInt32)
    (transition : Transition) : Prop :=
  ∃ n : ℕ, (world.slotRecords slot)[n]? = some transition.admitted ∧
    transition.previousStateDigest = chainDigest formats world slot n

theorem LinkedAt.grow {t : Transition} (h : LinkedAt f world i t)
    (hg : WorldGrows world later) : LinkedAt f later i t := by
  obtain ⟨n, hn, hd⟩ := h
  have hlt := (List.getElem?_eq_some_iff.mp hn).1
  obtain ⟨rest, hr⟩ := hg.slotRecords i
  refine ⟨n, ?_, ?_⟩
  · rw [← hr, List.getElem?_append_left hlt, hn]
  · rw [hg.chainDigest_eq hlt.le, hd]

theorem keeps_listRangeAdmissionIndexTransitions {requireMaterialized : Bool} :
    Keeps f (fun transitions later => ∀ t ∈ transitions, LinkedAt f later i t)
      (listRangeAdmissionIndexTransitions f i requireMaterialized) world := by
  refine keeps_call (fun _ _ _ => trivial) ?_
  intro middle hm hinv reply after hc hg hinv'
  refine returns_orFail fun objects _ => ?_
  refine (returns_forEach (P := fun _ t later => LinkedAt f later i t)
    hinv' LinkedAt.grow ?_).weaken ?_
  · intro digest _ start _ _
    refine keeps_call (fun _ _ _ => trivial) ?_
    intro before hb hi reply last hc hlast hinvl
    refine returns_orFail fun t hok => ?_
    subst hok
    obtain ⟨n, hn, hd, hp⟩ :=
      hi.linked i digest t (calls_getTransition hc)
    have hl : LinkedAt f before i t := ⟨n, hn, hp.trans hd⟩
    refine Returns.bind hinvl
      ((keeps_of_reads (reads_validateIndexTransition _ _ _)).weaken ?_)
    intro _ end' he _ _
    exact returns_pure fun _ hreturn _ => hl.grow (hlast.trans (he.trans hreturn))
  · intro transitions last _ _ hr t ht
    obtain ⟨_, -, hl⟩ := hr.exists_of_mem_right ht
    exact hl

end Listings

end Velorix.Admission
