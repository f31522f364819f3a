import UnitScript.Proofs.Machine.Policy

/-!
# Kinds of global variables

What is bound globally stays bound, and an assignment keeps its kind. The kind can be changed by a
declaration with a type outside of every call, and by the definition of a function of that name
anywhere. A program without either keeps it (`globals_keep_kinds`), whatever calls declare, whatever
parameters they have, and however the program ends. This holds of any property of kinds that
declarations and definitions respect (`Policy.kinds`).
-/

namespace UnitScript

/-- A value of some kind (`Value.kind`) is bound globally. -/
def Machine.Binds (m : Machine) (name : String) (kinds : Kind → Prop) : Prop :=
  ∃ v, m.context.globals.get? name = some v ∧ kinds v.value.kind

namespace Machine.Binds

variable {m : Machine} {name : String} {kinds : Kind → Prop} {context : Context}

/-- Only what is bound globally counts for `Machine.Binds`. -/
theorem of_globals (h : m.Binds name kinds) (hsame : context.globals = m.context.globals) :
    Machine.Binds { m with context } name kinds := by
  unfold Machine.Binds
  rw [hsame]
  exact h

/-- A value of such a kind may be bound (`Bindings.put`), and any other one under another name. -/
theorem of_put (h : m.Binds name kinds) {other : String} {v : Located}
    (hput : context.globals = m.context.globals.put other v)
    (hv : other = name → kinds v.value.kind) : Machine.Binds { m with context } name kinds := by
  unfold Machine.Binds
  rw [hput, Bindings.get?_put]
  split
  · next hname => exact ⟨v, rfl, hv hname.symm⟩
  · exact h

/-- A variable is set (`Context.set`). If it is declared outside of every call, its type has to be
one of such kinds (`Kind.fits`). -/
theorem set (h : m.Binds name kinds) {other : String} {type : Option TypeName} {v : Located}
    (hset : m.context.set other type v = .ok context)
    (hdeclared : m.context.frames = [] → other = name →
      ∀ t, type = some t → ∀ kind : Kind, kind.fits t = true → kinds kind) :
    Machine.Binds { m with context } name kinds := by
  rcases Context.set_globals hset with hsame | ⟨hput, hkind⟩
  · exact h.of_globals hsame
  · refine h.of_put hput ?_
    rintro rfl
    rcases hkind with ⟨present, hpresent, hkind⟩ | ⟨hnone, t, rfl, hfits⟩
    · obtain ⟨v', hv', hold⟩ := h
      rw [hpresent] at hv'
      cases hv'
      exact hkind ▸ hold
    · exact hdeclared hnone rfl t rfl _ hfits

end Machine.Binds

/-- A form that a program may have, in a call or not, if the kind of a global variable is to stay
within some kinds (`Machine.Binds`). Inside of a call a declaration binds in the frame of the call,
so it may be of any type there. -/
structure Occurrence.Respects (name : String) (kinds : Kind → Prop) (called : Bool)
    (o : Occurrence) : Prop where
  /-- A declaration outside of every call is of such a kind, -/
  declares {type : TypeName} {kind : Kind} : called = false → o.form.declared? name = some type →
    kind.fits type = true → kinds kind
  /-- and so is a function that is defined anywhere, for definitions bind globally even inside of a
  call (`Context.declareFunction`). -/
  defines : o.Throughout fun o => o.form.defines name = true → kinds .function

/-- The policy under which the kind of a global variable stays within some kinds, in a call or not.
`Machine.Binds` is what it asks of machines. -/
def Policy.kinds (name : String) (kinds : Kind → Prop) (called : Bool) : Policy where
  forms := Occurrence.Respects name kinds called
  bodies := Block.Throughout fun o => o.form.defines name = true → kinds .function
  machines m := (called = true → 0 < m.context.depth) ∧ m.Binds name kinds
  causes _ := True
  exhaustion := True
  ordinary _ := trivial
  stray _ _ _ := trivial
  loop _ := trivial
  function h := h.defines.body rfl
  print _ h := h
  set {m type ident value looped v context} hform hm hset := by
    refine ⟨fun hcalled => ?_, hm.2.set hset fun hnone hname t ht kind hfits => ?_⟩
    · exact (Context.SameCalls.set hset).depth ▸ hm.1 hcalled
    · have houtside : called = false := by
        refine Bool.eq_false_iff.2 fun hcalled => ?_
        have hdepth := hm.1 hcalled
        rw [Context.depth, hnone] at hdepth
        cases hdepth
      subst ht
      exact hform.declares houtside (if_pos hname) hfits
  declareFunction hform hm :=
    ⟨hm.1, hm.2.of_put rfl fun hname => hform.defines.here (decide_eq_true hname)⟩

/-- A call may declare the variable as it likes (`Policy.Encloses`). -/
theorem Policy.kinds_encloses (name : String) (kinds : Kind → Prop) (called : Bool) :
    (Policy.kinds name kinds called).Encloses (.kinds name kinds true) where
  bodies := .rfl
  causes := id
  exhaustion := id
  forms hbody o ho := ⟨nofun, hbody.occurrences o ho⟩
  enter params args hm henter := by
    obtain ⟨-, rfl⟩ := Context.enter_eq_ok.1 henter
    refine ⟨fun _ => ?_, hm.2.of_globals (bindParams_globals _ _ (List.cons_ne_nil _ _))⟩
    rw [(Context.SameCalls.bindParams params args _).depth, (Context.depth_of_enter henter).1]
    exact Nat.succ_pos _
  leave hm hm' _ := ⟨hm.1, hm'.2.of_globals rfl⟩

/-- Calls keep the kind of a global variable, by induction on the fuel
(`Encloses.callWithin_succ`). -/
theorem callWithin_keeps_kinds (name : String) (kinds : Kind → Prop) (called : Bool) (fuel : Nat) :
    (callWithin fuel).Meets (.kinds name kinds called) := by
  induction fuel generalizing called with
  | zero => exact fun _ _ _ _ => .outOfFuel trivial
  | succ fuel ih => exact (Policy.kinds_encloses name kinds called).callWithin_succ (ih true)

section
variable {m : Machine} {name : String} {kinds : Kind → Prop} {fuel : Nat} {program : Block}

/-- So does a program that respects it (`Occurrence.Respects`), where all functions that are bound
do. -/
theorem Block.run_keeps_kinds (hm : m.Reachable) (hname : m.Binds name kinds)
    (hstored : ∀ f, m.Stores f →
      f.declaration.body.Throughout fun o => o.form.defines name = true → kinds .function)
    (hprogram : ∀ o ∈ program.occurrences false, o.Respects name kinds false) :
    (program.run fuel m).2.Binds name kinds := by
  have hadmits : (Policy.kinds name kinds false).Admits m :=
    ⟨hm.orderly, fun hf => hstored _ hf, nofun, hname⟩
  have hrun := callWithin_keeps_kinds name kinds false fuel
  exact (Block.run_meets hrun hprogram hadmits).2.machines.2

/-- What is bound globally stays bound, whatever program is run and however it ends. It keeps its
kind unless the program itself declares a variable of that name with a type (`Form.declared?`), or
it or a function that is bound contains the definition of a function of that name (`Form.defines`).
Both parts are `Block.run_keeps_kinds`, for all kinds and for the one at the beginning. -/
theorem globals_keep_kinds (hm : m.Reachable) (fuel : Nat) (program : Block) {name : String}
    {v : Located} (hv : m.context.globals.get? name = some v) :
    ∃ v', (program.run fuel m).2.context.globals.get? name = some v' ∧
      ((∀ o ∈ program.occurrences false, o.form.declared? name = none) →
        (program.Throughout fun o => o.form.defines name = false) →
        (∀ f, m.Stores f → f.declaration.body.Throughout fun o => o.form.defines name = false) →
        v'.value.kind = v.value.kind) := by
  have hbound : (program.run fuel m).2.Binds name fun _ => True :=
    Block.run_keeps_kinds hm ⟨v, hv, trivial⟩ (fun _ _ _ _ _ => trivial) fun _ _ =>
      ⟨fun _ _ _ => trivial, fun _ => trivial, fun _ _ _ _ => trivial⟩
  obtain ⟨v', hv', -⟩ := hbound
  refine ⟨v', hv', fun hdeclares hdefines hstored => ?_⟩
  have hkind : (program.run fuel m).2.Binds name (· = v.value.kind) := by
    have hnot {o : Occurrence} (h : o.form.defines name = false) :
        o.form.defines name = true → Kind.function = v.value.kind := by
      rw [h]
      exact nofun
    refine Block.run_keeps_kinds hm ⟨v, hv, rfl⟩ (fun f hf o ho => hnot (hstored f hf o ho))
      fun o ho => ⟨fun _ hdeclared => ?_, ?_⟩
    · rw [hdeclares o ho] at hdeclared
      cases hdeclared
    · exact Block.Throughout.occurrences (fun o ho => hnot (hdefines o ho)) o ho
  obtain ⟨w, hw, hsame⟩ := hkind
  rw [hv'] at hw
  cases hw
  exact hsame

end

/-- The function `function shadow(x: string) -> void { bool x = true; }`. -/
def shadow : Closure where
  declaration :=
    { ident := ⟨"shadow", .origin⟩
      params := [⟨⟨"x", .origin⟩, .string⟩]
      returns := .void
      body := ⟨.origin, [⟨.origin, .assign (some .bool) ⟨"x", .origin⟩ ⟨.origin, .bool true⟩⟩]⟩ }
  captured := []

/-- The statement `int x = 1;`, and the definition of that function. -/
def shadowing : Block :=
  ⟨.origin, [⟨.origin, .assign (some .int) ⟨"x", .origin⟩ ⟨.origin, .int 1⟩⟩,
    ⟨.origin, .function shadow.declaration.ident shadow.declaration.params .void
      shadow.declaration.body⟩]⟩

/-- The statements `shadow("a");`, `x = 2;` and `x = "b";`, of which the last fails. -/
def shadowed : Block :=
  let x : Ident := ⟨"x", .origin⟩
  ⟨.origin, [⟨.origin, .call ⟨"shadow", .origin⟩ [⟨.origin, .string "a"⟩]⟩,
    ⟨.origin, .assign none x ⟨.origin, .int 2⟩⟩,
    ⟨.origin, .assign none x ⟨.origin, .string "b"⟩⟩]⟩

/-- The variable is an integer still: the parameter and the declaration inside of `shadow` are bound
in the frame of the call, and the string is refused. -/
theorem shadowed_keeps_kind :
    (shadowed.run 2 (shadowing.run 2 (.initial 1)).2).1 =
        .fault ⟨.reassignmentMismatch "x" .int .string, some .origin, [.main]⟩ ∧
      ∃ v, (shadowed.run 2 (shadowing.run 2 (.initial 1)).2).2.context.globals.get? "x" = some v ∧
        v.value.kind = .int := by
  have hreachable : (shadowing.run 2 (.initial 1)).2.Reachable :=
    Machine.Reachable.initial.run 2 shadowing
  have hx : (shadowing.run 2 (.initial 1)).2.context.globals.get? "x" =
      some ⟨.number (.int 1), some .origin⟩ := rfl
  obtain ⟨v, hv, hkind⟩ := globals_keep_kinds hreachable 2 shadowed hx
  have hdeclares : ∀ o ∈ shadowed.occurrences false, o.form.declared? "x" = none := by decide
  have hdefines : shadowed.Throughout fun o => o.form.defines "x" = false :=
    .of_bodies (by decide) nofun
  have hbody : shadow.declaration.body.Throughout fun o => o.form.defines "x" = false :=
    .of_bodies (by decide) nofun
  have hglobals : (shadowing.run 2 (.initial 1)).2.context.globals =
      [("print", ⟨.native Context.printer, none⟩), ("x", ⟨.number (.int 1), some .origin⟩),
        ("shadow", ⟨.function shadow, none⟩)] := rfl
  refine ⟨rfl, v, hv, hkind hdeclares hdefines ?_⟩
  rintro f ⟨entry, hentry, hf⟩
  rw [hglobals] at hentry
  simp only [List.mem_cons, List.not_mem_nil, or_false] at hentry
  rcases hentry with rfl | rfl | rfl
  all_goals cases hf
  exact hbody

end UnitScript
