import GrammarIndex.Proofs.Scope.Purge

/-!
What stays of a store when only some files are touched.

A frame for a list of files says that every symbol of the other files stays in its slot, stays bound
where it is bound, and goes on to stand for the other symbols it stands for. Frames compose. Purging
a file has a frame for that file; so has everything that binding does for it.
-/
namespace GrammarIndex

/-- The symbol belongs to none of the files. -/
def Symbol.Outside (s : Symbol) (files : List Path) : Prop := ∀ p ∈ files, ¬ s.OwnedBy p

theorem Symbol.Outside.mono {s : Symbol} {files more : List Path} (outside : s.Outside more)
    (subset : files ⊆ more) : s.Outside files :=
  fun p member => outside p (subset member)

@[simp] theorem Symbol.outside_singleton {s : Symbol} {p : Path} :
    s.Outside [p] ↔ ¬ s.OwnedBy p := by
  simp [Symbol.Outside]

theorem Symbol.outside_cons {s : Symbol} {p : Path} {files : List Path} :
    s.Outside (p :: files) ↔ ¬ s.OwnedBy p ∧ s.Outside files := by
  simp [Symbol.Outside]

theorem Symbol.Alike.outside {s s' : Symbol} (alike : s.Alike s') {files : List Path} :
    s.Outside files ↔ s'.Outside files := by
  simp only [Symbol.Outside, alike.ownedBy]

namespace ScopeStore

/-- Between two stores nothing changed but what the files define. -/
structure Frame (files : List Path) (st st' : ScopeStore) : Prop where
  keys : ∀ k g, st.byKey.get? k = some g → st'.byKey.get? k = some g
  stay : ∀ id s, st.symbol? id = some s → s.Outside files →
    ∃ s', st'.symbol? id = some s' ∧ s.Alike s'
  back : ∀ id s', st'.symbol? id = some s' → s'.Outside files →
    ∃ s, st.symbol? id = some s ∧ s.Alike s'
  names : ∀ g x id s, st.lookup? g x = some id → st.symbol? id = some s → s.Outside files →
    st'.lookup? g x = some id
  namesBack : ∀ g x id s', st'.lookup? g x = some id → st'.symbol? id = some s' →
    s'.Outside files → st.lookup? g x = some id
  aims : ∀ id s s' t u, st.symbol? id = some s → st'.symbol? id = some s' → s.Outside files →
    s.target = some t → st.symbol? t = some u → u.Outside files → s'.target = some t
  aimsBack : ∀ id s s' t u, st.symbol? id = some s → st'.symbol? id = some s' → s.Outside files →
    s'.target = some t → st'.symbol? t = some u → u.Outside files → s.target = some t

namespace Frame

theorem refl (files : List Path) (st : ScopeStore) : Frame files st st where
  keys _ _ found := found
  stay _ s live _ := ⟨s, live, .refl s⟩
  back _ s live _ := ⟨s, live, .refl s⟩
  names _ _ _ _ found _ _ := found
  namesBack _ _ _ _ found _ _ := found
  aims _ s s' _ _ live live' _ aimed _ _ := by
    rw [live] at live'
    cases live'
    exact aimed
  aimsBack _ s s' _ _ live live' _ aimed _ _ := by
    rw [live] at live'
    cases live'
    exact aimed

theorem mono {files more : List Path} {st st' : ScopeStore} (frame : Frame files st st')
    (subset : files ⊆ more) : Frame more st st' where
  keys := frame.keys
  stay id s live outside := frame.stay id s live (outside.mono subset)
  back id s live outside := frame.back id s live (outside.mono subset)
  names g x id s found live outside := frame.names g x id s found live (outside.mono subset)
  namesBack g x id s found live outside := frame.namesBack g x id s found live (outside.mono subset)
  aims id s s' t u live live' outside aimed liveU outsideU :=
    frame.aims id s s' t u live live' (outside.mono subset) aimed liveU (outsideU.mono subset)
  aimsBack id s s' t u live live' outside aimed liveU outsideU :=
    frame.aimsBack id s s' t u live live' (outside.mono subset) aimed liveU (outsideU.mono subset)

theorem trans {files : List Path} {st mid st' : ScopeStore} (first : Frame files st mid)
    (second : Frame files mid st') : Frame files st st' where
  keys k g found := second.keys k g (first.keys k g found)
  stay id s live outside := by
    obtain ⟨m, liveM, alike⟩ := first.stay id s live outside
    obtain ⟨s', live', alike'⟩ := second.stay id m liveM (alike.outside.1 outside)
    exact ⟨s', live', alike.trans alike'⟩
  back id s' live' outside := by
    obtain ⟨m, liveM, alike'⟩ := second.back id s' live' outside
    obtain ⟨s, live, alike⟩ := first.back id m liveM (alike'.outside.2 outside)
    exact ⟨s, live, alike.trans alike'⟩
  names g x id s found live outside := by
    obtain ⟨m, liveM, alike⟩ := first.stay id s live outside
    exact second.names g x id m (first.names g x id s found live outside) liveM
      (alike.outside.1 outside)
  namesBack g x id s' found live' outside := by
    obtain ⟨m, liveM, alike'⟩ := second.back id s' live' outside
    exact first.namesBack g x id m (second.namesBack g x id s' found live' outside) liveM
      (alike'.outside.2 outside)
  aims id s s' t u live live' outside aimed liveU outsideU := by
    obtain ⟨m, liveM, alike⟩ := first.stay id s live outside
    obtain ⟨w, liveW, alikeW⟩ := first.stay t u liveU outsideU
    have aimedM := first.aims id s m t u live liveM outside aimed liveU outsideU
    exact second.aims id m s' t w liveM live' (alike.outside.1 outside) aimedM liveW
      (alikeW.outside.1 outsideU)
  aimsBack id s s' t u live live' outside aimed liveU outsideU := by
    obtain ⟨m, liveM, alike⟩ := first.stay id s live outside
    obtain ⟨w, liveW, alikeW⟩ := second.back t u liveU outsideU
    have aimedM := second.aimsBack id m s' t u liveM live' (alike.outside.1 outside) aimed liveU
      outsideU
    exact first.aimsBack id s m t w live liveM outside aimedM liveW (alikeW.outside.2 outsideU)

end Frame

/-! ### Purging a file -/

/-- What purging a file leaves: nothing of the file, all of the others, and every name that was
bound to a symbol of the file among the freed names. -/
structure FileGone (p : Path) (st st' : ScopeStore) (freed : List String) : Prop where
  sound : st'.Sound
  frame : Frame [p] st st'
  keys : st'.byKey = st.byKey
  gone : ∀ id s', st'.symbol? id = some s' → ¬ s'.OwnedBy p
  names : ∀ g x id, st'.lookup? g x = some id → st.lookup? g x = some id
  aimsBack : ∀ id s s' t, st.symbol? id = some s → st'.symbol? id = some s' →
    s'.target = some t → s.target = some t
  freed : ∀ g x id s, st.lookup? g x = some id → st.symbol? id = some s → s.OwnedBy p → x ∈ freed

/-- A file without slots has no symbols. -/
theorem fileGone_of_absent {st : ScopeStore} (sound : st.Sound) {p : Path}
    (absent : st.byFile.get? p = none) : FileGone p st st [] := by
  have none_ : ∀ id s, st.symbol? id = some s → ¬ s.OwnedBy p := by
    intro id s live owned
    have listed := (sound.filed p id).2 ⟨s, live, owned⟩
    rw [slotsOf, absent] at listed
    cases listed
  refine ⟨sound, .refl _ _, rfl, none_, fun _ _ _ found => found, ?_,
    fun g x id s _ live owned => absurd owned (none_ id s live)⟩
  intro id s s' t live live' aimed
  rw [live] at live'
  cases live'
  exact aimed

theorem mem_slotsOf_of_erase {st st' : ScopeStore} {p : Path}
    (erased : st'.byFile = st.byFile.erase p) (q : Path) (id : Nat) :
    id ∈ st'.slotsOf q ↔ q.components ≠ p.components ∧ id ∈ st.slotsOf q := by
  rw [slotsOf, erased, PathTable.get?_erase, slotsOf]
  by_cases here : q.components = p.components <;> simp [here]

section Purged

variable {st : ScopeStore} (sound : st.Sound) {scope : Nat} {p : Path} {owned : List Nat}
  {q : Purge} (mine : ∀ id, id ∈ owned ↔ ∃ s, st.symbol? id = some s ∧ s.OwnedBy p)
  (purged : Purged scope owned { store := { st with byFile := st.byFile.erase p } } q)

include purged

/-- What is live after a purge was live before, in a slot that is not purged. -/
theorem symbol?_of_purged {id : Nat} {s' : Symbol} (live' : q.store.symbol? id = some s') :
    id ∉ owned ∧ ∃ s, st.symbol? id = some s ∧ s.Alike s' := by
  obtain ⟨s, live⟩ := purged.back id s' live'
  have notIn : id ∉ owned := by
    intro member
    rw [purged.gone id member] at live'
    cases live'
  obtain ⟨s'', live'', alike, _⟩ := purged.stay id s notIn live
  rw [live'] at live''
  cases live''
  exact ⟨notIn, s, live, alike⟩

include mine

theorem not_ownedBy_of_purged {id : Nat} {s' : Symbol} (live' : q.store.symbol? id = some s') :
    ¬ s'.OwnedBy p := by
  intro own
  obtain ⟨notIn, s, live, alike⟩ := symbol?_of_purged purged live'
  exact notIn ((mine id).2 ⟨s, live, alike.ownedBy.2 own⟩)

include sound in
theorem sound_of_purged : q.store.Sound := by
  refine ⟨purged.core, fun f id => ?_⟩
  rw [mem_slotsOf_of_erase purged.byFile, sound.filed]
  constructor
  · rintro ⟨other, s, live, own⟩
    have notIn : id ∉ owned := by
      intro member
      obtain ⟨s', live', own'⟩ := (mine id).1 member
      rw [live] at live'
      cases live'
      exact other (own.unique own')
    obtain ⟨s', live', alike, _⟩ := purged.stay id s notIn live
    exact ⟨s', live', alike.ownedBy.1 own⟩
  · rintro ⟨s', live', own⟩
    obtain ⟨notIn, s, live, alike⟩ := symbol?_of_purged purged live'
    refine ⟨fun same => ?_, s, live, alike.ownedBy.2 own⟩
    exact not_ownedBy_of_purged mine purged live' (own.congr same)

/-- Purging a file leaves the other files alone. -/
theorem frame_of_purged : Frame [p] st q.store := by
  have outside : ∀ {id s}, st.symbol? id = some s → s.Outside [p] → id ∉ owned := by
    intro id s live out member
    obtain ⟨s', live', own⟩ := (mine id).1 member
    rw [live] at live'
    cases live'
    exact out p (by simp) own
  refine ⟨?_, ?_, ?_, ?_, ?_, ?_, ?_⟩
  · intro k g found
    rw [byKey_of_layout purged.layout]
    exact found
  · intro id s live out
    obtain ⟨s', live', alike, _⟩ := purged.stay id s (outside live out) live
    exact ⟨s', live', alike⟩
  · intro id s' live' _
    exact (symbol?_of_purged purged live').2
  · intro g x id s found live out
    exact (purged.names g x id).2 ⟨found, outside live out⟩
  · intro g x id s' found _ _
    exact ((purged.names g x id).1 found).1
  · intro id s s' t u live live' out aimed liveU outU
    obtain ⟨s'', live'', _, targets⟩ := purged.stay id s (outside live out) live
    rw [live'] at live''
    cases live''
    exact (targets t).2 ⟨aimed, outside liveU outU⟩
  · intro id s s' t u live live' out aimed _ _
    obtain ⟨s'', live'', _, targets⟩ := purged.stay id s (outside live out) live
    rw [live'] at live''
    cases live''
    exact ((targets t).1 aimed).1

end Purged

theorem removeFile_spec {st : ScopeStore} (sound : st.Sound) {scope : Nat} {p : Path}
    (home : st.byKey.get? p.directory = some scope) :
    FileGone p st (st.removeFile scope p).1 (st.removeFile scope p).2 := by
  unfold removeFile
  cases listed : st.byFile.get? p with
  | none => exact fileGone_of_absent sound listed
  | some owned =>
    have slots : st.slotsOf p = owned := by rw [slotsOf, listed]; rfl
    have mine : ∀ id, id ∈ owned ↔ ∃ s, st.symbol? id = some s ∧ s.OwnedBy p := by
      intro id
      rw [← slots]
      exact sound.filed p id
    let start : Purge := { store := { st with byFile := st.byFile.erase p } }
    have core : start.store.Core :=
      ⟨sound.layered.of_layout rfl, ⟨sound.slots.nodup, sound.slots.inside, sound.slots.dead⟩,
        sound.bound, sound.homed, sound.builtin, sound.linked, sound.aimed⟩
    -- All symbols of the file live in the scope of its directory, so none is kept.
    have here : ∀ id ∈ owned, ∀ s, start.store.symbol? id = some s → s.scope = scope := by
      intro id member s live
      obtain ⟨s', live', own⟩ := (mine id).1 member
      have same : s' = s := Option.some.inj (live'.symm.trans live)
      subst same
      exact sound.scope_of_ownedBy home live' own
    have purged := purged_foldl owned start core here
    generalize done : owned.foldl (Purge.step scope) start = q at purged
    have kept : q.kept = [] := purged.kept
    simp only [start] at done
    simp only [done, kept, List.isEmpty_nil, if_true]
    refine ⟨sound_of_purged sound mine purged, frame_of_purged mine purged,
      byKey_of_layout purged.layout, fun _ _ live' => not_ownedBy_of_purged mine purged live', ?_, ?_,
      ?_⟩
    · intro g x id found
      exact ((purged.names g x id).1 found).1
    · intro id s s' t live live' aimed
      obtain ⟨s'', live'', _, targets⟩ :=
        purged.stay id s (symbol?_of_purged purged live').1 live
      rw [live'] at live''
      cases live''
      exact ((targets t).1 aimed).1
    · intro g x id s found live own
      have member : id ∈ owned := (mine id).2 ⟨s, live, own⟩
      obtain ⟨s', live', _, inScope⟩ := sound.bound g x id found
      rw [live] at live'
      cases live'
      have scopeIs : g = scope := inScope.symm.trans (here id member s live)
      rw [mem_sortOn]
      exact (purged.freed x).2 (.inr ⟨id, member, scopeIs ▸ found⟩)

/-! ### New symbols of a file -/

/-- Between two stores a file got new symbols, and everything else is still there. -/
structure Grown (p : Path) (st st' : ScopeStore) : Prop where
  sound : st'.Sound
  keys : st'.byKey = st.byKey
  stay : ∀ id s, st.symbol? id = some s → ∃ s', st'.symbol? id = some s' ∧ s.Alike s' ∧
    ∀ t, s.target = some t → s'.target = some t
  fresh : ∀ id s', st'.symbol? id = some s' → st.symbol? id = none → s'.OwnedBy p
  names : ∀ g x id, st.lookup? g x = some id → st'.lookup? g x = some id
  namesBack : ∀ g x id, st'.lookup? g x = some id → st.lookup? g x = none →
    ∃ s', st'.symbol? id = some s' ∧ s'.OwnedBy p
  aimsBack : ∀ id s s' t, st.symbol? id = some s → st'.symbol? id = some s' → s'.target = some t →
    s.target = some t ∨ ∃ u, st'.symbol? t = some u ∧ u.OwnedBy p

namespace Grown

theorem refl {st : ScopeStore} (sound : st.Sound) (p : Path) : Grown p st st where
  sound := sound
  keys := rfl
  stay _ s live := ⟨s, live, .refl s, fun _ aimed => aimed⟩
  fresh _ _ live dead := by rw [live] at dead; cases dead
  names _ _ _ found := found
  namesBack _ _ _ found absent := by rw [found] at absent; cases absent
  aimsBack _ s s' _ live live' aimed := by
    rw [live] at live'
    cases live'
    exact .inl aimed

theorem trans {p : Path} {st mid st' : ScopeStore} (first : Grown p st mid)
    (second : Grown p mid st') : Grown p st st' where
  sound := second.sound
  keys := second.keys.trans first.keys
  stay id s live := by
    obtain ⟨m, liveM, alike, aims⟩ := first.stay id s live
    obtain ⟨s', live', alike', aims'⟩ := second.stay id m liveM
    exact ⟨s', live', alike.trans alike', fun t aimed => aims' t (aims t aimed)⟩
  fresh id s' live' dead := by
    cases liveM : mid.symbol? id with
    | none => exact second.fresh id s' live' liveM
    | some m =>
      have owned := first.fresh id m liveM dead
      obtain ⟨s'', live'', alike, _⟩ := second.stay id m liveM
      rw [live'] at live''
      cases live''
      exact alike.ownedBy.1 owned
  names g x id found := second.names g x id (first.names g x id found)
  namesBack g x id found absent := by
    cases foundM : mid.lookup? g x with
    | none => exact second.namesBack g x id found foundM
    | some j =>
      have same := second.names g x j foundM
      rw [found] at same
      cases same
      obtain ⟨m, liveM, owned⟩ := first.namesBack g x id foundM absent
      obtain ⟨s', live', alike, _⟩ := second.stay id m liveM
      exact ⟨s', live', alike.ownedBy.1 owned⟩
  aimsBack id s s' t live live' aimed := by
    obtain ⟨m, liveM, _⟩ := first.stay id s live
    rcases second.aimsBack id m s' t liveM live' aimed with aimedM | new
    · rcases first.aimsBack id s m t live liveM aimedM with was | ⟨u, liveU, owned⟩
      · exact .inl was
      · obtain ⟨u', liveU', alike, _⟩ := second.stay t u liveU
        exact .inr ⟨u', liveU', alike.ownedBy.1 owned⟩
    · exact .inr new

theorem frame {p : Path} {st st' : ScopeStore} (grown : Grown p st st') : Frame [p] st st' where
  keys k g found := by
    rw [grown.keys]
    exact found
  stay id s live _ := by
    obtain ⟨s', live', alike, _⟩ := grown.stay id s live
    exact ⟨s', live', alike⟩
  back id s' live' outside := by
    cases live : st.symbol? id with
    | none => exact absurd (grown.fresh id s' live' live) (outside p (by simp))
    | some s =>
      obtain ⟨s'', live'', alike, _⟩ := grown.stay id s live
      rw [live'] at live''
      cases live''
      exact ⟨s, rfl, alike⟩
  names g x id _ found _ _ := grown.names g x id found
  namesBack g x id s' found live' outside := by
    cases absent : st.lookup? g x with
    | none =>
      obtain ⟨s'', live'', owned⟩ := grown.namesBack g x id found absent
      rw [live'] at live''
      cases live''
      exact absurd owned (outside p (by simp))
    | some j =>
      have same := grown.names g x j absent
      rw [found] at same
      exact same.symm
  aims id s s' t u live live' _ aimed _ _ := by
    obtain ⟨s'', live'', _, aims⟩ := grown.stay id s live
    rw [live'] at live''
    cases live''
    exact aims t aimed
  aimsBack id s s' t u live live' _ aimed liveU outside := by
    refine (grown.aimsBack id s s' t live live' aimed).resolve_right ?_
    rintro ⟨u', liveU', owned⟩
    rw [liveU] at liveU'
    cases liveU'
    exact outside p (by simp) owned

end Grown

section Adding

variable {st : ScopeStore} (sound : st.Sound) {p : Path} {s : Symbol} (admitted : st.Admitted s)
  (owned : s.OwnedBy p)

include sound admitted owned

theorem grown_allocate : Grown p st (st.allocate s).1 := by
  refine ⟨sound_allocate sound admitted, rfl, ?_, ?_, fun _ _ _ found => found, ?_, ?_⟩
  · intro id s' live
    exact ⟨s', symbol?_allocate_of_live sound.slots s live, .refl s', fun _ aimed => aimed⟩
  · intro id s' live' dead
    rw [(eq_allocated sound.slots s live' dead).2]
    exact owned
  · intro g x id found absent
    rw [lookup?_allocate, absent] at found
    cases found
  · intro id s' s'' t live live' aimed
    rw [symbol?_allocate_of_live sound.slots s live] at live'
    cases live'
    exact .inl aimed

/-- Binding a new symbol to a free name. -/
theorem grown_bind (unbound : st.lookup? s.scope s.name = none)
    (inside : s.scope < st.scopes.size) :
    Grown p st ((st.allocate s).1.modifyNames s.scope (·.insert s.name (st.allocate s).2)) := by
  have live := symbol?_allocate_self sound.slots s
  refine (grown_allocate sound admitted owned).trans ⟨sound_bind (sound_allocate sound admitted) live
    inside, byKey_of_layout (layout_modifyNames _ _ _), ?_, ?_, ?_, ?_, ?_⟩
  · exact fun id s' live' => ⟨s', live', .refl s', fun _ aimed => aimed⟩
  · intro id s' live' dead
    rw [symbol?_modifyNames, dead] at live'
    cases live'
  · intro g x id found
    rw [lookup?_bind (st.allocate s).1 inside, if_neg, found]
    rintro ⟨rfl, rfl⟩
    rw [lookup?_allocate, unbound] at found
    cases found
  · intro g x id found absent
    rw [lookup?_bind (st.allocate s).1 inside] at found
    split at found
    · cases found
      exact ⟨s, live, owned⟩
    · rw [absent] at found
      cases found
  · intro id s' s'' t live' live'' aimed
    rw [symbol?_modifyNames, live'] at live''
    cases live''
    exact .inl aimed

/-- A new symbol for which an open declaration of the same name comes to stand. -/
theorem grown_forward (defines : s.forward = false) {source : Nat} {t : Symbol}
    (live : st.symbol? source = some t) (self : t.target = none) (declares : t.forward = true)
    (name : t.name = s.name) (scope : t.scope = s.scope) (sited : t.file? ≠ none) :
    Grown p st ((st.allocate s).1.forward source (st.allocate s).2) := by
  have liveSource := symbol?_allocate_of_live sound.slots s live
  have unaimed : (st.allocate s).1.forwarders.get? (st.allocate s).2 = none := by
    rw [forwarders_allocate]
    cases found : st.forwarders.get? (st.allocate s).2 with
    | none => rfl
    | some j =>
      obtain ⟨u, liveU, aimed⟩ := (sound.linked _ j).1 found
      obtain ⟨_, w, liveW, _⟩ := sound.aimed j u _ liveU aimed
      exact absurd rfl (ne_allocated sound.slots s liveW)
  have sound' := sound_forward (sound_allocate sound admitted) liveSource declares
    (symbol?_allocate_self sound.slots s) admitted.self defines name.symm scope.symm unaimed sited
  refine (grown_allocate sound admitted owned).trans ⟨sound', byKey_of_layout layout_forward,
    ?_, ?_, ?_, ?_, ?_⟩
  · intro id s' live'
    rw [symbol?_forward liveSource]
    split
    · next here =>
      rw [here, liveSource] at live'
      cases live'
      refine ⟨_, rfl, .retarget t _, fun u aimed => ?_⟩
      rw [self] at aimed
      cases aimed
    · exact ⟨s', live', .refl s', fun _ aimed => aimed⟩
  · intro id s' live' dead
    obtain ⟨s₀, live₀, -⟩ := symbol?_of_forward liveSource live'
    rw [dead] at live₀
    cases live₀
  · intro g x id found
    rw [lookup?_forward]
    exact found
  · intro g x id found absent
    rw [lookup?_forward, absent] at found
    cases found
  · intro id s' s'' u live' live'' aimed
    rw [symbol?_forward liveSource] at live''
    split at live''
    · next here =>
      cases live''
      cases aimed
      refine .inr ⟨s, ?_, owned⟩
      rw [symbol?_forward liveSource, if_neg (ne_allocated sound.slots s live).symm]
      exact symbol?_allocate_self sound.slots s
    · rw [live'] at live''
      cases live''
      exact .inl aimed

end Adding

end ScopeStore

end GrammarIndex
