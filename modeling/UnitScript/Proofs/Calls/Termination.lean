import UnitScript.Proofs.Machine.Fuel
import UnitScript.Proofs.Machine.Policy

/-!
# Programs without loops end

A program without loops can go on for long only by calls inside one another, and of these there are
no more than the machine has room for. So with fuel for one call more than fits it never runs out of
it (`Policy.loopFree`), and with still more fuel it comes to the same (`loopFree_ends`). Functions
may call themselves and each other, and define others anew while they run: what is defined by a
program without loops has none in its body.
-/

namespace UnitScript

/-- On a machine that programs reach (`Machine.Reachable`), no more calls are in progress than there
may be: `Context.enter` lets in no more. -/
theorem Machine.Reachable.bounded {m : Machine} (h : m.Reachable) :
    m.context.depth ≤ m.context.maxDepth := by
  induction h with
  | initial => exact Nat.zero_le _
  | beginning _ hreaches ih => exact hreaches.bounded ih
  | @ending _ _ _ a _ hreaches ih =>
    have hsame := a.sameCalls_ending
    rw [hsame.depth, hsame.maxDepth]
    exact hreaches.bounded ih

/-- A block without loops, in the bodies of functions neither (`Block.Throughout`). -/
def Block.LoopFree (b : Block) : Prop := b.Throughout fun o => o.form.isLoop = false

/-- Fewer than so many further calls fit inside one another, before `Context.enter` refuses one. -/
structure Context.Room (room : Nat) (c : Context) : Prop where
  bounded : c.depth ≤ c.maxDepth
  lt_add : c.maxDepth < c.depth + room

namespace Context.Room

variable {room : Nat} {c c' : Context}

/-- The room stays while the calls in progress do (`Context.SameCalls`). -/
theorem of_sameCalls (h : c.Room room) (hsame : c.SameCalls c') : c'.Room room := by
  refine ⟨?_, ?_⟩
  · rw [hsame.depth, hsame.maxDepth]
    exact h.bounded
  · rw [hsame.depth, hsame.maxDepth]
    exact h.lt_add

/-- A call that is entered takes up room for one: inside of it there is one less. -/
theorem enter (h : c.Room (room + 1)) {f : Closure} {site : Position}
    (henter : c.enter f site = .ok c') : c'.Room room := by
  obtain ⟨hdepth, hmax⟩ := Context.depth_of_enter henter
  refine ⟨?_, ?_⟩
  · rw [hdepth, hmax]
    exact (Context.enter_eq_ok.1 henter).1
  · rw [hdepth, hmax, Nat.add_right_comm]
    exact h.lt_add

/-- Without room for any call there is no such context. -/
theorem pos (h : c.Room room) : 0 < room := by
  have hlt := Nat.lt_of_le_of_lt h.bounded h.lt_add
  exact Nat.pos_of_lt_add_right hlt

end Context.Room

/-- The policy of programs without loops where fewer than so many further calls fit inside one
another (`Context.Room`). It does not allow for the end of the fuel. -/
def Policy.loopFree (room : Nat) : Policy where
  forms := Occurrence.Throughout fun o => o.form.isLoop = false
  bodies := Block.LoopFree
  machines m := m.context.Room room
  causes _ := True
  exhaustion := False
  ordinary _ := trivial
  stray _ _ _ := trivial
  loop h := by cases h.here
  function h := h.body rfl
  print _ h := h
  set _ hm hset := hm.of_sameCalls (.set hset)
  declareFunction _ hm := hm.of_sameCalls (.bindGlobal ..)

/-- Inside of a call one further call less fits, so the policy of what is inside (`Policy.loopFree`)
has one less room. -/
theorem Policy.loopFree_encloses (room : Nat) :
    (Policy.loopFree (room + 1)).Encloses (.loopFree room) where
  bodies := .rfl
  causes := id
  exhaustion := id
  forms := Block.Throughout.occurrences
  enter params args hm henter := (hm.enter henter).of_sameCalls (.bindParams params args _)
  leave hm _ hmax := hm.of_sameCalls (.of_frames hmax rfl)

/-- Calls that are bounded by the room that is left never run out of fuel, by induction on the room:
a call that is entered takes some of it, and without any it is refused. -/
theorem callWithin_loopFree (room : Nat) : (callWithin room).Meets (.loopFree room) := by
  induction room with
  | zero =>
    intro f args site _ m hm
    exact absurd hm.machines.pos (Nat.lt_irrefl 0)
  | succ room ih => exact (Policy.loopFree_encloses room).callWithin_succ ih

/-- A program without loops (`Block.LoopFree`), run on a machine where no function has one, comes to
a value, to nothing or to a fault, and this is so with any fuel from some amount on. Printing is
part of such runs: every value has a text (`Value.text`), also where the sign of an exponent is
turned around in 64 bits (`Units.text`). -/
theorem loopFree_ends {m : Machine} (hm : m.Reachable)
    (hstored : ∀ f, m.Stores f → f.declaration.body.LoopFree) {program : Block}
    (hprogram : program.LoopFree) :
    ∃ outcome m', outcome ≠ .outOfFuel ∧
      ∀ fuel, m.context.maxDepth - m.context.depth < fuel → program.run fuel m = (outcome, m') := by
  obtain ⟨room, hroom⟩ := Nat.exists_eq_add_of_le hm.bounded
  have hadmits : (Policy.loopFree (room + 1)).Admits m :=
    ⟨hm.orderly, fun hf => hstored _ hf, hm.bounded, by rw [hroom]; exact Nat.lt_succ_self _⟩
  have hends := Block.run_meets (callWithin_loopFree (room + 1)) hprogram.occurrences hadmits
  have hfuel : (program.run (room + 1) m).1 ≠ .outOfFuel := by
    intro hfuel
    have hends := hends.1
    rw [hfuel] at hends
    cases hends with
    | outOfFuel h => exact h
  refine ⟨(program.run (room + 1) m).1, (program.run (room + 1) m).2, hfuel, fun fuel hle => ?_⟩
  rw [hroom, Nat.add_sub_cancel_left] at hle
  exact Block.run_eq_of_le hle hfuel

/-- The body of `function forever(n: int) -> int { return forever(n + 1); }`, which always calls
itself. -/
def foreverBody : Block :=
  let next : Node := ⟨.origin, .binary .add ⟨.origin, .variable ⟨"n", .origin⟩⟩ ⟨.origin, .int 1⟩⟩
  ⟨.origin, [⟨.origin, .returnValue ⟨.origin, .call ⟨"forever", .origin⟩ [next]⟩⟩]⟩

/-- The definition of that function with `foreverBody`, and the statement `forever(0);`. -/
def forever : Block :=
  ⟨.origin, [⟨.origin, .function ⟨"forever", .origin⟩ [⟨⟨"n", .origin⟩, .int⟩] .int foreverBody⟩,
    ⟨.origin, .call ⟨"forever", .origin⟩ [⟨.origin, .int 0⟩]⟩]⟩

/-- The program `forever` has no loop (`Block.LoopFree`), in the body of its function neither. -/
theorem forever_loopFree : forever.LoopFree := by
  have hbody : foreverBody.LoopFree := .of_bodies (by decide) nofun
  refine .of_bodies (by decide) fun body h => ?_
  cases List.mem_singleton.1 h
  exact hbody

/-- The program `forever` calls itself until the limit is reached, with the same outcome for any
fuel from there on. -/
theorem forever_ends :
    (forever.run 4 (.initial 3)).1 = .fault ⟨.recursionLimit "forever" 3, some .origin,
        [⟨"forever", .origin⟩, ⟨"forever", .origin⟩, ⟨"forever", .origin⟩, .main]⟩ ∧
      ∃ outcome m', outcome ≠ .outOfFuel ∧
        ∀ fuel, 3 < fuel → forever.run fuel (.initial 3) = (outcome, m') := by
  refine ⟨rfl, loopFree_ends .initial ?_ forever_loopFree⟩
  rintro f ⟨entry, hentry, hf⟩
  cases List.mem_singleton.1 hentry
  cases hf

end UnitScript
