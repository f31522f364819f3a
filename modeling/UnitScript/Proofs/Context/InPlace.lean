import UnitScript.Proofs.Context.Scopes

/-!
# Storage that is changed in place

`Storage` keeps the scopes and the call stack in two lists of their own, and nothing in its
definition ties one to the other: that they stay in step is due to the operations alone.
`Storage.Stacked` says that they are in step, that every scope but the first has the first one as
its parent, and that no more calls are in progress than there may be. Whatever operation is
performed, accepted or refused, it leaves a storage that is in order in this sense
(`Storage.Stacked.perform`).

`Storage.Runs` is what an evaluation may do to a storage: operations that neither begin nor end a
call, and calls that are entered, run inside, and left. After that the same calls are in progress,
and every scope except for the innermost and the global one is as it was before
(`Storage.Runs.sameCalls`). `Storage.Reaches` stops inside of calls.
-/

namespace UnitScript

/-- The operation neither begins nor ends a call, so it is none of `Operation.enter` and
`Operation.leave`. -/
def Operation.Local : Operation → Prop
  | .enter .. | .leave => False
  | .get _ | .set .. | .bind .. | .define _ | .provide _ | .capture => True

namespace Storage

variable {s s' s'' : Storage} {f : Closure} {site : Position} {name : String} {v : Located}
  {i : Nat}

/-- An operation that neither begins nor ends a call changes nothing, or it writes one value by
`put`: in the innermost scope, in the global one, or in that where the name is bound (`holder?`). -/
theorem perform_local (s : Storage) {operation : Operation} (h : operation.Local) :
    (s.perform operation).2 = s ∨
      ∃ i name v, (i = s.current ∨ i = 0 ∨ s.holder? name = some i) ∧
        (s.perform operation).2 = s.put i name v := by
  cases operation with
  | enter f site => exact h.elim
  | leave => exact h.elim
  | get name => exact .inl (congrArg Prod.snd (s.perform_get name))
  | capture => exact .inl rfl
  | bind name v => exact .inr ⟨s.current, name, v, .inl rfl, rfl⟩
  | define f => exact .inr ⟨0, _, _, .inr (.inl rfl), rfl⟩
  | provide f => exact .inr ⟨0, _, _, .inr (.inl rfl), rfl⟩
  | set name type v =>
    cases type with
    | some type =>
      rw [perform_declare]
      split
      · exact .inr ⟨s.current, name, v, .inl rfl, rfl⟩
      · exact .inl rfl
    | none =>
      cases hholder : s.holder? name with
      | none => exact .inl (congrArg Prod.snd (perform_assign_of_none hholder v))
      | some i =>
        obtain ⟨present, hat⟩ := exists_at?_of_holder? hholder
        rw [perform_assign_of_some hholder hat]
        split
        · exact .inr ⟨i, name, v, .inr (.inr hholder), rfl⟩
        · exact .inl rfl

/-! ## Storage in order -/

/-- The two lists of a `Storage` are in step. Nothing but the operations sees to this. -/
structure Stacked (s : Storage) : Prop where
  /-- No more calls are in progress (`Storage.current`) than there may be. -/
  bounded : s.current ≤ s.maxDepth
  /-- There is one scope for the program and one for each call: the two lists of the storage are in
  step. -/
  length_eq : s.scopes.length = s.callStack.length
  /-- At the bottom of the call stack stands the program (`Activation.main`). -/
  main : s.callStack.head? = some .main
  /-- The first scope is the global one and has no parent, and it is the parent of all others. -/
  parents {i : Nat} {scope : Scope} : s.scopes[i]? = some scope →
    scope.parent = if i = 0 then none else some 0

/-- From the first storage to the second the calls in progress (`Storage.callStack`) are the same,
and only the innermost and the global scope may bind other values. -/
structure SameCalls (s s' : Storage) : Prop where
  maxDepth : s'.maxDepth = s.maxDepth
  callStack : s'.callStack = s.callStack
  /-- There are as many scopes, so `Storage.current` is the same. -/
  length_eq : s'.scopes.length = s.scopes.length
  /-- Scopes of the same number have the same parent (`Scope.parent`). -/
  parents (i : Nat) : s'.scopes[i]?.map Scope.parent = s.scopes[i]?.map Scope.parent
  /-- A scope that is neither the innermost (`Storage.current`) nor the global one is the same in
  both. -/
  others {i : Nat} : i ≠ 0 → i ≠ s.current → s'.scopes[i]? = s.scopes[i]?

/-- A storage has the same calls as itself. -/
theorem SameCalls.refl (s : Storage) : s.SameCalls s :=
  ⟨rfl, rfl, rfl, fun _ => rfl, fun _ _ => rfl⟩

/-- The innermost scopes have the same number. -/
theorem SameCalls.current (h : s.SameCalls s') : s'.current = s.current := by
  rw [Storage.current, Storage.current, h.length_eq]

/-- The calls stay the same over several steps (`SameCalls`): the innermost scope has one number all
the time, so the others are never touched. -/
theorem SameCalls.trans (h : s.SameCalls s') (h' : s'.SameCalls s'') : s.SameCalls s'' where
  maxDepth := h'.maxDepth.trans h.maxDepth
  callStack := h'.callStack.trans h.callStack
  length_eq := h'.length_eq.trans h.length_eq
  parents i := (h'.parents i).trans (h.parents i)
  others hzero hcurrent :=
    (h'.others hzero (h.current ▸ hcurrent)).trans (h.others hzero hcurrent)

/-- Where the calls are the same (`SameCalls`) as in a storage that is `Stacked`, it is `Stacked`
too. -/
theorem Stacked.of_sameCalls (hs : s.Stacked) (h : s.SameCalls s') : s'.Stacked where
  bounded := by
    rw [h.current, h.maxDepth]
    exact hs.bounded
  length_eq := by
    rw [h.length_eq, h.callStack]
    exact hs.length_eq
  main := by
    rw [h.callStack]
    exact hs.main
  parents {i scope} hscope := by
    have hparents := h.parents i
    rw [hscope, Option.map_some] at hparents
    obtain ⟨scope', hscope', hparent⟩ := Option.map_eq_some_iff.1 hparents.symm
    rw [← hparent]
    exact hs.parents hscope'

/-- There is at least the scope of the program. -/
theorem Stacked.scopes_pos (hs : s.Stacked) : 0 < s.scopes.length := by
  rw [hs.length_eq]
  exact List.length_pos_iff.2 fun hnil => by
    have hmain := hs.main
    rw [hnil] at hmain
    cases hmain

/-- A name that `Storage.holder?` finds is bound in the innermost scope or in the global one, since
the parent of every other scope is the global one. -/
theorem Stacked.holder? (hs : s.Stacked) (h : s.holder? name = some i) :
    i = s.current ∨ i = 0 := by
  rw [Storage.holder?] at h
  cases hlength : s.scopes.length with
  | zero => exact absurd hs.scopes_pos (hlength ▸ Nat.lt_irrefl 0)
  | succ bound =>
    rw [hlength, Scope.holder?] at h
    obtain ⟨scope, hscope, h⟩ := Option.bind_eq_some_iff.1 h
    split at h
    · exact .inl (Option.some.inj h).symm
    · have hparent := hs.parents hscope
      split at hparent
      · rw [hparent] at h
        cases h
      · rw [hparent, Option.bind_some] at h
        -- The parent is the global scope, whose own parents end the search.
        cases bound with
        | zero => cases h
        | succ bound =>
          obtain ⟨global, hglobal, h⟩ := Option.bind_eq_some_iff.1 h
          split at h
          · exact .inr (Option.some.inj h).symm
          · rw [hs.parents hglobal] at h
            cases h

/-- Writing by `Storage.put` in the innermost scope or in the global one touches no other call
(`SameCalls`). -/
theorem SameCalls.put (hi : i = s.current ∨ i = 0) (name : String) (v : Located) :
    s.SameCalls (s.put i name v) where
  maxDepth := rfl
  callStack := rfl
  length_eq := List.length_modify _ _ _
  parents j := by
    rw [Storage.put, List.getElem?_modify, Option.map_eq_map, Option.map_map]
    refine congrArg (Option.map · _) ?_
    funext scope
    rw [Function.comp_apply]
    split
    · rfl
    · rfl
  others {j} hzero hcurrent := by
    have hij : i ≠ j := by
      rintro rfl
      exact hi.elim hcurrent hzero
    exact List.getElem?_modify_ne _ _ hij

/-- Operations that neither begin nor end a call (`Operation.Local`) leave the calls of a `Stacked`
storage as they are. -/
theorem Stacked.sameCalls_perform (hs : s.Stacked) {operation : Operation}
    (h : operation.Local) : s.SameCalls (s.perform operation).2 := by
  rcases s.perform_local h with hsame | ⟨i, name, v, hi, hput⟩
  · rw [hsame]
    exact .refl s
  · rw [hput]
    refine .put ?_ name v
    rcases hi with hcurrent | hglobal | hholder
    · exact .inl hcurrent
    · exact .inr hglobal
    · exact hs.holder? hholder

/-! ## Calls -/

/-- The scope of a call that has been pushed has the number of the calls that are in progress now,
which is that of the scopes before. -/
theorem current_push (s : Storage) (f : Closure) (site : Position) :
    (s.push f site).current = s.scopes.length := by
  rw [current, push, List.length_append, List.length_singleton, Nat.add_sub_cancel]

/-- A call that is pushed for which there is room leaves the storage `Stacked`: its parent is the
global scope, and both lists have grown by one. -/
theorem Stacked.push (hs : s.Stacked) (hroom : s.current < s.maxDepth) (f : Closure)
    (site : Position) : (s.push f site).Stacked where
  bounded := by
    have hpos := hs.scopes_pos
    rw [current_push]
    rw [current] at hroom
    show s.scopes.length ≤ s.maxDepth
    omega
  length_eq := by
    rw [Storage.push, List.length_append, List.length_append, hs.length_eq]
    rfl
  main := by
    rw [Storage.push, List.head?_append, hs.main]
    rfl
  parents {i scope} hscope := by
    rw [Storage.push, List.getElem?_append] at hscope
    split at hscope
    · exact hs.parents hscope
    · next hge =>
      have hpos := hs.scopes_pos
      have hscope : scope = ⟨f.captured, some 0⟩ :=
        List.mem_singleton.1 (List.mem_of_getElem? hscope)
      rw [hscope, if_neg (by omega)]

/-- A storage from which its innermost call is popped stays `Stacked`, unless that is the
program. -/
theorem Stacked.pop (hs : s.Stacked) (hcall : s.current ≠ 0) : s.pop.Stacked where
  bounded := by
    have hbounded := hs.bounded
    rw [current] at hbounded ⊢
    rw [Storage.pop, List.length_dropLast]
    exact Nat.le_trans (Nat.sub_le _ _) hbounded
  length_eq := by
    rw [Storage.pop, List.length_dropLast, List.length_dropLast, hs.length_eq]
  main := by
    have hlength := hs.length_eq
    have hmain := hs.main
    rw [current] at hcall
    rw [Storage.pop, List.head?_eq_getElem?, List.getElem?_dropLast, if_pos (by omega),
      ← List.head?_eq_getElem?]
    exact hmain
  parents {i scope} hscope := by
    rw [Storage.pop, List.getElem?_dropLast] at hscope
    split at hscope
    · exact hs.parents hscope
    · cases hscope

/-- Whatever operation is performed, the storage stays `Stacked`: local ones by
`Stacked.sameCalls_perform`, calls by `Stacked.push` and `Stacked.pop`. -/
theorem Stacked.perform (hs : s.Stacked) (operation : Operation) :
    (s.perform operation).2.Stacked := by
  cases operation with
  | enter f site =>
    rw [perform_enter]
    split
    · next hroom => exact hs.push hroom f site
    · exact hs
  | leave =>
    rw [perform_leave]
    split
    · exact hs
    · next hcall => exact hs.pop hcall
  | get | set | bind | define | provide | capture =>
    exact hs.of_sameCalls (hs.sameCalls_perform trivial)

/-- Popping a call that was pushed brings back the calls that were in progress, where the calls have
been the same (`SameCalls`) inside. -/
theorem SameCalls.pop_of_push (h : (s.push f site).SameCalls s') :
    s.SameCalls s'.pop := by
  have hscopes : ∀ i < s.scopes.length, s'.pop.scopes[i]? = s'.scopes[i]? := by
    intro i hi
    have hlength := h.length_eq
    rw [Storage.push, List.length_append, List.length_singleton] at hlength
    rw [Storage.pop, List.getElem?_dropLast, if_pos (by omega)]
  have hpushed : ∀ i < s.scopes.length, (s.push f site).scopes[i]? = s.scopes[i]? :=
    fun i hi => List.getElem?_append_left hi
  have hlength : s'.pop.scopes.length = s.scopes.length := by
    rw [Storage.pop, List.length_dropLast, h.length_eq, Storage.push, List.length_append,
      List.length_singleton, Nat.add_sub_cancel]
  refine ⟨h.maxDepth, ?_, hlength, fun i => ?_, fun {i} hzero hcurrent => ?_⟩
  · rw [Storage.pop, h.callStack]
    exact List.dropLast_concat
  · rcases Nat.lt_or_ge i s.scopes.length with hi | hi
    · rw [hscopes i hi, h.parents, hpushed i hi]
    · rw [List.getElem?_eq_none hi, List.getElem?_eq_none (hlength ▸ hi)]
  · rcases Nat.lt_or_ge i s.scopes.length with hi | hi
    · rw [hscopes i hi, h.others hzero (by rw [current_push]; exact Nat.ne_of_lt hi), hpushed i hi]
    · rw [List.getElem?_eq_none hi, List.getElem?_eq_none (hlength ▸ hi)]

/-! ## Whole evaluations -/

/-- The operations of an evaluation (`Storage.perform`) take the first storage to the second one:
operations that neither begin nor end a call, and calls that are entered, run inside, and left
without being refused. -/
inductive Runs : Storage → Storage → Prop
  | refl {s : Storage} : Runs s s
  | operation {s s' : Storage} {operation : Operation} : Runs s s' → operation.Local →
      Runs s (s'.perform operation).2
  /-- A call from its entry until it is left. -/
  | call {s s' entered last left : Storage} {f : Closure} {site : Position} : Runs s s' →
      s'.perform (.enter f site) = (.ok .done, entered) → Runs entered last →
      last.perform .leave = (.ok .done, left) → Runs s left

/-- The operations of an evaluation (`Storage.perform`) take the first storage to the second one,
and may stop inside of calls that are not left yet. -/
inductive Reaches : Storage → Storage → Prop
  | runs {s s' : Storage} : Runs s s' → Reaches s s'
  /-- A call that is entered, and what is run inside it. -/
  | entered {s s' entered last : Storage} {f : Closure} {site : Position} : Reaches s s' →
      s'.perform (.enter f site) = (.ok .done, entered) → Runs entered last → Reaches s last

/-- One evaluation after another. -/
theorem Runs.trans (h : Runs s s') (h' : Runs s' s'') : Runs s s'' := by
  induction h' with
  | refl => exact h
  | operation _ hlocal ih => exact (ih h).operation hlocal
  | call _ henter hinside hleave ih _ => exact (ih h).call henter hinside hleave

/-- What is run where operations have stopped is reached. -/
theorem Reaches.tail (h : Reaches s s') (h' : Runs s' s'') : Reaches s s'' := by
  cases h with
  | runs h => exact .runs (h.trans h')
  | entered h henter hinside => exact h.entered henter (hinside.trans h')

/-- What is reached from where operations have stopped is reached. -/
theorem Reaches.trans (h : Reaches s s') (h' : Reaches s' s'') : Reaches s s'' := by
  induction h' with
  | runs h' => exact h.tail h'
  | entered _ henter hinside ih => exact ih.entered henter hinside

/-- What an operation leaves behind is in order. -/
theorem Stacked.of_perform (hs : s.Stacked) {operation : Operation}
    {answer : Except Cause Answer} (h : s.perform operation = (answer, s')) : s'.Stacked := by
  have hperform := hs.perform operation
  rwa [h] at hperform

/-- At the end of an evaluation (`Runs`) a storage that was `Stacked` is so again, by induction on
its operations. -/
theorem Runs.stacked (h : s.Runs s') (hs : s.Stacked) : s'.Stacked := by
  induction h with
  | refl => exact hs
  | operation _ _ ih => exact (ih hs).perform _
  | call _ henter _ hleave ih ihInside =>
    exact (ihInside ((ih hs).of_perform henter)).of_perform hleave

/-- At every point of an evaluation (`Reaches`), between any two of its operations, a storage that
was `Stacked` is so again. -/
theorem Reaches.stacked (h : s.Reaches s') (hs : s.Stacked) : s'.Stacked := by
  induction h with
  | runs h => exact h.stacked hs
  | entered _ henter hinside ih => exact hinside.stacked (ih.of_perform henter)

/-- A call that is not refused has been pushed. -/
theorem eq_push_of_enter {entered : Storage}
    (h : s.perform (.enter f site) = (.ok .done, entered)) : entered = s.push f site := by
  rw [perform_enter] at h
  split at h
  · exact (congrArg Prod.snd h).symm
  · cases h

/-- A call that is left without being refused has been popped. -/
theorem eq_pop_of_leave {left : Storage} (h : s.perform .leave = (.ok .done, left)) :
    left = s.pop := by
  rw [perform_leave] at h
  split at h
  · cases h
  · exact (congrArg Prod.snd h).symm

/-- After an evaluation (`Runs`) the calls in progress are as before: a call that is entered is left
(`SameCalls.pop_of_push`), and nothing else touches them. -/
theorem Runs.sameCalls (h : s.Runs s') (hs : s.Stacked) : s.SameCalls s' := by
  induction h with
  | refl => exact .refl _
  | operation hruns hlocal ih => exact (ih hs).trans ((hruns.stacked hs).sameCalls_perform hlocal)
  | call hruns henter _ hleave ih ihInside =>
    have hinside := ihInside ((hruns.stacked hs).of_perform henter)
    obtain rfl := eq_push_of_enter henter
    obtain rfl := eq_pop_of_leave hleave
    exact (ih hs).trans (.pop_of_push hinside)

end Storage

/-! ## The storage of a context -/

/-- A context is what a `Storage` holds: the global bindings come first among the scopes, behind
them stands one scope for each call and with the same number the activation of that call. -/
structure Storage.Keeps (s : Storage) (c : Context) : Prop where
  maxDepth : s.maxDepth = c.maxDepth
  globals : s.scopes[0]? = some ⟨c.globals, none⟩
  /-- What stands at a number among the scopes and in the call stack belongs to the same call. -/
  paired (i : Nat) : s.scopes[i + 1]? = c.frames.reverse[i]?.map Frame.scope ∧
    s.callStack[i + 1]? = c.frames.reverse[i]?.map Frame.activation
  /-- Names are looked up along the parents. -/
  resolved (name : String) :
    c.lookup? name = Scope.resolve? s.scopes name s.scopes.length s.current

namespace Context

variable {c c' : Context}

/-- A context is kept by its storage. -/
theorem keeps_storage (c : Context) : c.storage.Keeps c where
  maxDepth := rfl
  globals := rfl
  paired i := by
    have hstack : c.callStack = .main :: c.frames.reverse.map Frame.activation := by
      simp [callStack, traceback]
    refine ⟨?_, ?_⟩
    · rw [storage, scopes, List.getElem?_cons_succ, List.getElem?_map]
    · rw [storage, hstack, List.getElem?_cons_succ, List.getElem?_map]
  resolved name := by
    rw [storage_current]
    exact c.lookup?_eq_resolve? name

/-- A storage in order (`Storage.Stacked`) that keeps a context (`Storage.Keeps`) is
`Context.storage` of it, so a context is kept in one way only. -/
theorem eq_storage_of_keeps {s : Storage} (h : s.Keeps c) (hs : s.Stacked) : s = c.storage := by
  have hscopes : s.scopes = c.scopes := by
    refine List.ext_getElem? fun i => ?_
    cases i with
    | zero => exact h.globals
    | succ i => exact (h.paired i).1.trans (c.keeps_storage.paired i).1.symm
  have hstack : s.callStack = c.callStack := by
    refine List.ext_getElem? fun i => ?_
    cases i with
    | zero =>
      rw [← List.head?_eq_getElem?, hs.main]
      simp [callStack, traceback]
    | succ i => exact (h.paired i).2.trans (c.keeps_storage.paired i).2.symm
  obtain ⟨scopes, callStack, maxDepth⟩ := s
  cases hscopes
  cases hstack
  cases h.maxDepth
  rfl

/-- The storage of a context within the bound on calls is in order (`Storage.Stacked`). -/
theorem storage_stacked (h : c.depth ≤ c.maxDepth) : c.storage.Stacked where
  bounded := by
    rw [storage_current]
    exact h
  length_eq := by simp [storage, scopes, callStack, traceback]
  main := by simp [storage, callStack, traceback]
  parents {i scope} hscope := by
    cases i with
    | zero =>
      cases hscope
      rfl
    | succ i =>
      rw [(c.keeps_storage.paired i).1] at hscope
      obtain ⟨frame, -, rfl⟩ := Option.map_eq_some_iff.1 hscope
      rfl

/-- Where the context performs an operation (`Context.perform`), its storage performs it in place
with the same answer, by `Context.storage_perform`. -/
theorem storage_perform_of_ok {operation : Operation} {answer : Answer}
    (h : c.perform operation = .ok (answer, c')) :
    c.storage.perform operation = (.ok answer, c'.storage) := by
  rw [storage_perform, step, Operation.attempt, h]

/-- A call that the context enters is entered in place. -/
theorem storage_enter_of_ok {f : Closure} {site : Position} (h : c.enter f site = .ok c') :
    c.storage.perform (.enter f site) = (.ok .done, c'.storage) := by
  refine storage_perform_of_ok ?_
  rw [perform, h]
  rfl

/-- A call that the context leaves is left in place. -/
theorem storage_leave_of_ok (h : c.leave = .ok c') :
    c.storage.perform .leave = (.ok .done, c'.storage) := by
  refine storage_perform_of_ok ?_
  rw [perform, h]
  rfl

/-- A variable that the context sets is set in place. -/
theorem runs_of_set {name : String} {type : Option TypeName} {v : Located}
    (h : c.set name type v = .ok c') : c.storage.Runs c'.storage := by
  have hrun : c.storage.Runs (c.storage.perform (.set name type v)).2 := .operation .refl trivial
  have hset : c.perform (.set name type v) = .ok (.done, c') := by
    rw [perform, h]
    rfl
  rwa [storage_perform_of_ok hset] at hrun

/-- A name that the context binds is bound in place. -/
theorem runs_bind (c : Context) (name : String) (v : Located) :
    c.storage.Runs (c.bind name v).storage := by
  have hrun : c.storage.Runs (c.storage.perform (.bind name v)).2 := .operation .refl trivial
  rwa [storage_perform] at hrun

/-- A function that the context defines is defined in place. -/
theorem runs_define (c : Context) (f : Closure) : c.storage.Runs (c.define f).storage := by
  have hrun : c.storage.Runs (c.storage.perform (.define f)).2 := .operation .refl trivial
  rwa [storage_perform] at hrun

end Context

end UnitScript
