import UnitScript.Proofs.Machine.Policy
import UnitScript.Proofs.Machine.Reachable
import UnitScript.Proofs.Token.LongestMatch

/-!
# Units are told apart by their texts

A unit is written as its powers one after the other, without anything in between. They can be told
apart all the same: a name ends in front of the sign of its power, and an exponent in front of the
next name, which begins with no digit (`Units.written_injective`). What is written above a fraction
bar ends there, and the one above it is no power (`Units.inside_injective`). So units of dimensions
whose names are names of the language have the same text only if they are equal
(`Units.text_injective`).

A run that fails because units do not match names two that are different (`Policy.apart`), and so it
names them by texts that are different too (`Units.told_apart`).
-/

namespace UnitScript

namespace Pattern

variable {test : Char → Bool} {as bs rest tail : List Char}

/-- Two texts have the same run at their front if they are the same. -/
theorem append_inj (has : ∀ c ∈ as, test c = true) (hbs : ∀ c ∈ bs, test c = true)
    (hrest : ∀ c ∈ rest.head?, test c = false) (htail : ∀ c ∈ tail.head?, test c = false)
    (h : as ++ rest = bs ++ tail) : as = bs ∧ rest = tail := by
  refine List.append_inj h ?_
  rw [← run_append has hrest, h, run_append hbs htail]

end Pattern

namespace Units

/-! ## Powers -/

/-- A power that is written: of a dimension with a name of the language (`Pattern.isNameStart`,
`Pattern.isNamePart`), with a positive exponent. -/
structure Power (p : String × Int) : Prop where
  name : Pattern.name.Describes p.1.toList
  positive : 0 < p.2

/-- Powers, one after the other. -/
def written (ps : List (String × Int)) : List Char := ps.flatMap fun p => (powerText p.1 p.2).toList

variable {p : String × Int} {ps qs as bs as' bs' : List (String × Int)}

/-- A power (`powerText`) is a name, its sign and the digits of its exponent. -/
theorem toList_powerText (name : String) (n : Nat) :
    (powerText name n).toList = name.toList ++ '^' :: Nat.toDigits 10 n := by
  show (name ++ "^" ++ Nat.repr n).toList = _
  rw [String.toList_append, String.toList_append, Nat.toList_repr, List.append_assoc]
  rfl

theorem written_cons (name : String) (n : Nat) (ps : List (String × Int)) :
    written ((name, (n : Int)) :: ps) =
      name.toList ++ '^' :: (Nat.toDigits 10 n ++ written ps) := by
  rw [written, List.flatMap_cons, toList_powerText, List.append_assoc]
  rfl

/-- The exponent of a power is a natural number. -/
theorem Power.exists_eq (h : Power p) : ∃ name : String, ∃ n : Nat, p = (name, (n : Int)) ∧
    ∃ c cs, name.toList = c :: cs ∧ Pattern.isNameStart c = true ∧
      ∀ d ∈ c :: cs, Pattern.isNamePart d = true := by
  obtain ⟨name, e⟩ := p
  obtain ⟨hname, hpositive⟩ := h
  obtain ⟨n, rfl⟩ := Int.eq_ofNat_of_zero_le (Int.le_of_lt hpositive)
  refine ⟨name, n, rfl, ?_⟩
  generalize name.toList = text at hname
  cases hname with
  | @name c cs hc hcs =>
    exact ⟨c, cs, rfl, hc, List.forall_mem_cons.2 ⟨Pattern.isNamePart_of_isNameStart hc, hcs⟩⟩

/-- Powers begin like a name. -/
theorem head?_written (h : ∀ p ∈ ps, Power p) :
    ∀ c ∈ (written ps).head?, Pattern.isNameStart c = true := by
  cases ps with
  | nil => nofun
  | cons p ps =>
    obtain ⟨name, n, rfl, c, cs, hname, hc, -⟩ := (h p List.mem_cons_self).exists_eq
    rw [written_cons, hname]
    rintro d ⟨⟩
    exact hc

/-- No power is written as nothing. -/
theorem written_eq_nil_iff (h : ∀ p ∈ ps, Power p) : written ps = [] ↔ ps = [] := by
  cases ps with
  | nil => exact iff_of_true rfl rfl
  | cons p ps =>
    obtain ⟨name, n, rfl, -⟩ := (h p List.mem_cons_self).exists_eq
    rw [written_cons]
    exact iff_of_false (by simp) (List.cons_ne_nil _ _)

/-- There is no fraction bar in powers. -/
theorem slash_notMem_written (h : ∀ p ∈ ps, Power p) : '/' ∉ written ps := by
  induction ps with
  | nil => exact List.not_mem_nil
  | cons p ps ih =>
    obtain ⟨hp, hps⟩ := List.forall_mem_cons.1 h
    obtain ⟨name, n, rfl, c, cs, hname, -, hparts⟩ := hp.exists_eq
    rw [written_cons, hname]
    intro hmem
    rcases List.mem_append.1 hmem with hmem | hmem
    · exact absurd (hparts _ hmem) (by decide)
    · rcases List.mem_append.1 ((List.mem_cons.1 hmem).resolve_left (by decide)) with hmem | hmem
      · exact absurd (Nat.isDigit_of_mem_toDigits (by decide) (by decide) hmem) (by decide)
      · exact ih hps hmem

/-- Powers are told apart by how they are `written`: a name ends where the sign of a power begins,
and digits end where a name begins. -/
theorem written_injective (hps : ∀ p ∈ ps, Power p) (hqs : ∀ q ∈ qs, Power q)
    (h : written ps = written qs) : ps = qs := by
  induction ps generalizing qs with
  | nil => exact ((written_eq_nil_iff hqs).1 h.symm).symm
  | cons p ps ih =>
    cases qs with
    | nil => exact (written_eq_nil_iff hps).1 h
    | cons q qs =>
      obtain ⟨hp, hps'⟩ := List.forall_mem_cons.1 hps
      obtain ⟨hq, hqs'⟩ := List.forall_mem_cons.1 hqs
      obtain ⟨name, m, rfl, c, cs, hname, -, hparts⟩ := hp.exists_eq
      obtain ⟨name', n, rfl, c', cs', hname', -, hparts'⟩ := hq.exists_eq
      have hsign (rest : List Char) : ∀ d ∈ ('^' :: rest).head?, Pattern.isNamePart d = false := by
        rintro d ⟨⟩
        rfl
      have hdigits (n : Nat) : ∀ d ∈ Nat.toDigits 10 n, d.isDigit = true :=
        fun d hd => Nat.isDigit_of_mem_toDigits (by decide) (by decide) hd
      have hrest {rs : List (String × Int)} (hrs : ∀ r ∈ rs, Power r) :
          ∀ d ∈ (written rs).head?, d.isDigit = false :=
        fun d hd => Pattern.not_isDigit_of_isNameStart (head?_written hrs d hd)
      rw [written_cons, written_cons] at h
      obtain ⟨hnames, h⟩ := Pattern.append_inj (hname ▸ hparts) (hname' ▸ hparts') (hsign _)
        (hsign _) h
      obtain ⟨hexponents, h⟩ := Pattern.append_inj (hdigits m) (hdigits n) (hrest hps')
        (hrest hqs') (List.cons.inj h).2
      have hvalues := congrArg (Nat.ofDigitChars 10 · 0) hexponents
      rw [Nat.ofDigitChars_toDigits (by decide) (by decide),
        Nat.ofDigitChars_toDigits (by decide) (by decide)] at hvalues
      rw [String.toList_injective hnames, hvalues, ih hps' hqs' h]

/-! ## Fractions -/

/-- A fraction of powers, without the brackets around it, as `Units.text` writes it. -/
def inside (as bs : List (String × Int)) : List Char :=
  if bs = [] then written as else (if as = [] then ['1'] else written as) ++ '/' :: written bs

/-- Nothing but powers is written as powers are, where a one stands for none of them. -/
theorem above_injective (has : ∀ p ∈ as, Power p) (hbs : ∀ p ∈ bs, Power p)
    (h : (if as = [] then ['1'] else written as) = if bs = [] then ['1'] else written bs) :
    as = bs := by
  have hone {ps : List (String × Int)} (hps : ∀ p ∈ ps, Power p) : ['1'] ≠ written ps := by
    intro h
    have hstart := head?_written hps '1' (by rw [← h]; rfl)
    exact absurd hstart (by decide)
  split at h <;> split at h
  · next ha hb => rw [ha, hb]
  · exact absurd h (hone hbs)
  · exact absurd h.symm (hone has)
  · exact written_injective has hbs h

/-- Fractions are told apart by what stands `inside` the brackets: no power has a fraction bar in
it. -/
theorem inside_injective (has : ∀ p ∈ as, Power p) (hbs : ∀ p ∈ bs, Power p)
    (has' : ∀ p ∈ as', Power p) (hbs' : ∀ p ∈ bs', Power p) (h : inside as bs = inside as' bs') :
    as = as' ∧ bs = bs' := by
  have habove {ps : List (String × Int)} (hps : ∀ p ∈ ps, Power p) :
      ∀ c ∈ if ps = [] then ['1'] else written ps, (c != '/') = true := by
    intro c hc
    split at hc
    · cases List.mem_singleton.1 hc
      rfl
    · exact bne_iff_ne.2 fun heq => slash_notMem_written hps (heq ▸ hc)
  have hbar (rest : List Char) : ∀ c ∈ ('/' :: rest).head?, (c != '/') = false := by
    rintro c ⟨⟩
    rfl
  have hmixed {as bs cs : List (String × Int)} (hcs : ∀ p ∈ cs, Power p) (hbs : bs ≠ [])
      (h : inside cs [] = inside as bs) : False := by
    refine slash_notMem_written hcs ?_
    rw [inside, if_pos rfl, inside, if_neg hbs] at h
    rw [h]
    exact List.mem_append_right _ List.mem_cons_self
  by_cases hb : bs = []
  · by_cases hb' : bs' = []
    · subst hb hb'
      rw [inside, inside, if_pos rfl, if_pos rfl] at h
      exact ⟨written_injective has has' h, rfl⟩
    · subst hb
      exact (hmixed has hb' h).elim
  · by_cases hb' : bs' = []
    · subst hb'
      exact (hmixed has' hb h.symm).elim
    · rw [inside, inside, if_neg hb, if_neg hb'] at h
      obtain ⟨htop, hbelow⟩ := Pattern.append_inj (habove has) (habove has') (hbar _) (hbar _) h
      exact ⟨above_injective has has' htop, written_injective hbs hbs' (List.cons.inj hbelow).2⟩

/-! ## Units -/

/-- The powers above the fraction bar. -/
def above (u : Units) : List (String × Int) :=
  (u.factors.filter fun factor => 0 < factor.2.toInt).map fun factor => (factor.1, factor.2.toInt)

/-- The powers below it, with the signs of their exponents turned. -/
def below (u : Units) : List (String × Int) :=
  (u.factors.filter fun factor => factor.2.toInt < 0).map fun factor =>
    (factor.1, (-factor.2).toInt)

/-- Powers are written by joining their texts. -/
theorem toList_join_powers (ps : List (String × Int)) :
    (String.join (ps.map fun p => powerText p.1 p.2)).toList = written ps := by
  rw [String.toList_join, List.flatMap_map]
  rfl

/-- A unit is written as the powers above the fraction bar and those below it. -/
theorem text_eq (u : Units) : u.text =
    if u.below = [] then "(" ++ String.join (u.above.map fun p => powerText p.1 p.2) ++ ")"
    else if u.above = [] then
      "(1/" ++ String.join (u.below.map fun p => powerText p.1 p.2) ++ ")"
    else
      "(" ++ String.join (u.above.map fun p => powerText p.1 p.2) ++ "/" ++
        String.join (u.below.map fun p => powerText p.1 p.2) ++ ")" := by
  have habove : u.above = [] ↔
      (u.factors.filter fun factor => decide (0 < factor.2.toInt)).isEmpty = true := by
    rw [above, List.map_eq_nil_iff, List.isEmpty_iff]
  have hbelow : u.below = [] ↔
      (u.factors.filter fun factor => decide (factor.2.toInt < 0)).isEmpty = true := by
    rw [below, List.map_eq_nil_iff, List.isEmpty_iff]
  simp only [habove, hbelow]
  simp only [above, below, List.map_map]
  rfl

/-- The text of a unit is a fraction of powers in brackets (`inside`), those `above` the bar and
those `below` it. -/
theorem toList_text (u : Units) : u.text.toList = '(' :: (inside u.above u.below ++ [')']) := by
  rw [text_eq, inside]
  split
  · rw [String.toList_append, String.toList_append, toList_join_powers]
    rfl
  · split
    · rw [String.toList_append, String.toList_append, toList_join_powers]
      rfl
    · simp only [String.toList_append, toList_join_powers, List.append_assoc]
      rfl

/-- A unit whose text can be read: its dimensions have names of the language, and their exponents
have negatives, which all words but `Int64.minValue` have. -/
structure Legible (u : Units) : Prop where
  names : ∀ factor ∈ u.factors, Pattern.name.Describes factor.1.toList
  exponents : ∀ factor ∈ u.factors, factor.2 ≠ Int64.minValue

variable {a b u : Units}

/-- The sign of every word but the least one can be turned. -/
theorem toInt_neg_of_ne_minValue {w : Int64} (h : w ≠ Int64.minValue) :
    (-w).toInt = -w.toInt := by
  have hmin : Int64.minValue.toInt = -2 ^ 63 := by decide
  have hne : w.toInt ≠ -2 ^ 63 := fun heq => h (Int64.toInt_inj.1 (heq.trans hmin.symm))
  have hlower := w.le_toInt
  have hupper := w.toInt_lt
  rw [Int64.toInt_neg]
  exact Int.bmod_eq_of_le (by omega) (by omega)

/-- What is written of a legible unit are powers (`Power`), above the fraction bar -/
theorem power_above (h : u.Legible) : ∀ p ∈ u.above, Power p := by
  intro p hp
  obtain ⟨factor, hfactor, rfl⟩ := List.mem_map.1 hp
  obtain ⟨hmem, hpositive⟩ := List.mem_filter.1 hfactor
  exact ⟨h.names factor hmem, of_decide_eq_true hpositive⟩

/-- and below it. -/
theorem power_below (h : u.Legible) : ∀ p ∈ u.below, Power p := by
  intro p hp
  obtain ⟨factor, hfactor, rfl⟩ := List.mem_map.1 hp
  obtain ⟨hmem, hnegative⟩ := List.mem_filter.1 hfactor
  refine ⟨h.names factor hmem, ?_⟩
  show 0 < (-factor.2).toInt
  rw [toInt_neg_of_ne_minValue (h.exponents factor hmem)]
  exact Int.neg_pos_of_neg (of_decide_eq_true hnegative)

/-- A factor stands above the fraction bar or below it. -/
theorem mem_factors_iff {factor : String × Int64} : factor ∈ u.factors ↔
    (factor.1, factor.2.toInt) ∈ u.above ∨ (factor.1, (-factor.2).toInt) ∈ u.below := by
  constructor
  · intro h
    have hne : factor.2.toInt ≠ 0 := fun hzero => u.nonzero factor h (Int64.toInt_inj.1 hzero)
    rcases Int.lt_or_gt_of_ne hne with hneg | hpos
    · exact .inr (List.mem_map.2 ⟨factor, List.mem_filter.2 ⟨h, decide_eq_true hneg⟩, rfl⟩)
    · exact .inl (List.mem_map.2 ⟨factor, List.mem_filter.2 ⟨h, decide_eq_true hpos⟩, rfl⟩)
  · rintro (h | h)
    · obtain ⟨other, hother, heq⟩ := List.mem_map.1 h
      obtain ⟨hname, hexponent⟩ := Prod.mk.inj heq
      have hsame : other = factor := Prod.ext hname (Int64.toInt_inj.1 hexponent)
      exact hsame ▸ (List.mem_filter.1 hother).1
    · obtain ⟨other, hother, heq⟩ := List.mem_map.1 h
      obtain ⟨hname, hexponent⟩ := Prod.mk.inj heq
      have hsame : other = factor :=
        Prod.ext hname (Int64.neg_inj.1 (Int64.toInt_inj.1 hexponent))
      exact hsame ▸ (List.mem_filter.1 hother).1

/-- Units with the same powers `above` and `below` the fraction bar are equal. -/
theorem eq_of_above_below (habove : a.above = b.above) (hbelow : a.below = b.below) : a = b := by
  have hnodup (u : Units) : u.factors.Nodup :=
    u.sorted.imp fun hlt => ne_of_apply_ne Prod.fst (String.ne_of_lt hlt)
  have hperm : a.factors.Perm b.factors :=
    (List.perm_ext_iff_of_nodup (hnodup a) (hnodup b)).2 fun factor => by
      rw [mem_factors_iff, mem_factors_iff, habove, hbelow]
  have hfactors : a.factors = b.factors :=
    hperm.eq_of_pairwise (fun f g _ _ hlt hgt => absurd hgt (String.lt_asymm hlt)) a.sorted b.sorted
  cases a
  cases b
  cases hfactors
  rfl

/-- Units that are `Legible` are told apart by their texts (`Units.text`). -/
theorem text_injective (ha : a.Legible) (hb : b.Legible) (h : a.text = b.text) : a = b := by
  have hlists := congrArg String.toList h
  rw [toList_text, toList_text] at hlists
  obtain ⟨habove, hbelow⟩ := inside_injective (power_above ha) (power_below ha) (power_above hb)
    (power_below hb) (List.append_cancel_right (List.cons.inj hlists).2)
  exact eq_of_above_below habove hbelow

end Units

/-! ## Units that do not match -/

/-- The policy of all programs, that units which are said not to match (`Cause.unitMismatch`) are
different. -/
def Policy.apart : Policy where
  forms _ := True
  bodies _ := True
  machines _ := True
  causes cause := ∀ op u w, cause = .unitMismatch op u w → u ≠ w
  exhaustion := True
  ordinary h _ _ _ := h.apart
  stray _ _ hkind := by
    rintro op u w rfl
    cases hkind
  loop _ := trivial
  function _ := trivial
  print _ _ := trivial
  set _ _ _ := trivial
  declareFunction _ _ := trivial

/-- It is the same inside of calls. -/
theorem Policy.apart_encloses : Policy.apart.Encloses .apart where
  bodies := .rfl
  causes := id
  exhaustion := id
  forms _ _ _ := trivial
  enter _ _ _ _ := trivial
  leave _ _ _ := trivial

/-- Calls keep to `Policy.apart`, however deep they are inside one another. -/
theorem callWithin_apart (fuel : Nat) : (callWithin fuel).Meets .apart := by
  induction fuel with
  | zero => exact fun _ _ _ _ => .outOfFuel trivial
  | succ fuel ih => exact Policy.apart_encloses.callWithin_succ ih

section
variable {m m' : Machine} {fuel : Nat} {program : Block} {e : Fault} {op : BinaryOp} {u w : Units}

/-- A run fails for units that do not match only if they are different: `Quantity.combineAlike` is
the one place that says so. -/
theorem Block.run_apart (hm : m.Reachable) (hrun : program.run fuel m = (.fault e, m'))
    (hcause : e.cause = .unitMismatch op u w) : u ≠ w := by
  have hadmits : Policy.apart.Admits m := ⟨hm.orderly, fun _ => trivial, trivial⟩
  have hforms : ∀ o ∈ program.occurrences false, Policy.apart.forms o := fun _ _ => trivial
  have hends := (Block.run_meets (callWithin_apart fuel) hforms hadmits).1
  rw [hrun] at hends
  cases hends with
  | fault h => exact h op u w hcause

end

/-- Units that are `Legible` have the same text if and only if they are equal. So where a run fails
because two of them do not match, it names them by different texts. -/
theorem Units.told_apart {a b : Units} (ha : a.Legible) (hb : b.Legible) :
    (a.text = b.text ↔ a = b) ∧
      ∀ (m m' : Machine) (fuel : Nat) (program : Block) (e : Fault) (op : BinaryOp),
        m.Reachable → program.run fuel m = (.fault e, m') → e.cause = .unitMismatch op a b →
        e.cause.detail = s!"cannot apply `{op.text}` to {a.text} and {b.text}" ∧
          a.text ≠ b.text := by
  refine ⟨⟨text_injective ha hb, congrArg text⟩, fun m m' fuel program e op hm hrun hcause => ?_⟩
  refine ⟨(congrArg Cause.detail hcause).trans rfl, fun htext => ?_⟩
  exact Block.run_apart hm hrun hcause (text_injective ha hb htext)

/-- Square metres over seconds, with the text `(m^2/s^1)`. -/
def squareRate : Units := ⟨[("m", 2), ("s", -1)], by decide +kernel, by decide +kernel⟩

/-- A dimension whose name ends in a digit, over seconds, with the text `(m2^1/s^1)`. -/
def numberedRate : Units := ⟨[("m2", 1), ("s", -1)], by decide +kernel, by decide +kernel⟩

/-- The expression `1&|m*m/s| + 1&|m2/s|`. -/
def rateSum : Block :=
  let m : Ident := ⟨"m", .origin⟩
  let m2 : Ident := ⟨"m2", .origin⟩
  let s : Ident := ⟨"s", .origin⟩
  ⟨.origin, [⟨.origin, .binary .add ⟨.origin, .phys ⟨.origin, .int 1⟩ ⟨.origin, .unit [m, m] [s]⟩⟩
    ⟨.origin, .phys ⟨.origin, .int 1⟩ ⟨.origin, .unit [m2] [s]⟩⟩⟩]⟩

theorem squareRate_legible : squareRate.Legible where
  names := by
    have hm : Pattern.name.Describes ['m'] := .name rfl nofun
    have hs : Pattern.name.Describes ['s'] := .name rfl nofun
    exact List.forall_mem_cons.2 ⟨hm, List.forall_mem_singleton.2 hs⟩
  exponents := by decide

theorem numberedRate_legible : numberedRate.Legible where
  names := by
    have hm : Pattern.name.Describes ['m', '2'] := .name rfl (List.forall_mem_singleton.2 rfl)
    have hs : Pattern.name.Describes ['s'] := .name rfl nofun
    exact List.forall_mem_cons.2 ⟨hm, List.forall_mem_singleton.2 hs⟩
  exponents := by decide

/-- The exponent of `squareRate` and the digit in the name of `numberedRate` are told apart where
`rateSum` is refused. -/
theorem rates_told_apart :
    squareRate.Legible ∧ numberedRate.Legible ∧
      squareRate.text = "(m^2/s^1)" ∧ numberedRate.text = "(m2^1/s^1)" ∧
      rateSum.run 0 (.initial 0) = (.fault
        ⟨.unitMismatch .add squareRate numberedRate, some .origin, [.main]⟩, .initial 0) ∧
      squareRate.text ≠ numberedRate.text := by
  have hrun : rateSum.run 0 (.initial 0) = (.fault
      ⟨.unitMismatch .add squareRate numberedRate, some .origin, [.main]⟩, .initial 0) := rfl
  have hapart := Units.told_apart squareRate_legible numberedRate_legible
  exact ⟨squareRate_legible, numberedRate_legible, by decide +kernel, by decide +kernel, hrun,
    (hapart.2 _ _ _ _ _ _ .initial hrun rfl).2⟩

end UnitScript
