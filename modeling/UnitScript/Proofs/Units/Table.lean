import UnitScript.Proofs.Except
import UnitScript.Units.Algebra

/-!
# Tables of exponents

The operations on units once more, on bare lists of exponents that nothing is known of: a table is
combined with another by going through the entries of the other, and only at the end the entries
that have become zero are taken out (`Table.combine`). Tables that are made by these operations, in
whatever combination (`Table.Made`), turn out to be canonical (`Table.Made.canonical`): every name
occurs once at most, and never with a zero. So they can be told apart by their exponents, and a unit
can be defined to be a canonical table in the first place, where every single step of an operation
takes out a zero at once: the operations come to the same (`Units.factors_multiply` and its
companions).
-/

namespace UnitScript

/-- Exponents by name, as plain lists: nothing in the type keeps them sorted or free of zeros. -/
abbrev Table := List (String × Int64)

namespace Table

/-- The exponent of a name. -/
abbrev exponent (t : Table) (name : String) : Int64 := Units.exponentIn name t

/-- Writes the exponent of a name, in the order of the names, even if it is zero. `prune` comes
later. -/
def set (name : String) (exponent : Int64) : Table → Table
  | [] => [(name, exponent)]
  | (other, present) :: t =>
    if name < other then (name, exponent) :: (other, present) :: t
    else if name = other then (name, exponent) :: t
    else (other, present) :: set name exponent t

/-- Takes out the zeros that `set` has written or left. -/
def prune (t : Table) : Table := t.filter fun entry => entry.2 ≠ 0

/-- Takes one entry into a table by `set`, unless the new exponent is out of range. -/
def combineEntry (op : Int → Int → Int) (t : Table) (entry : String × Int64) :
    Except Cause Table :=
  match Integer.ofInt? (op (t.exponent entry.1).toInt entry.2.toInt) with
  | some exponent => .ok (t.set entry.1 exponent)
  | none => .error (.exponentOverflow entry.1)

/-- Takes the entries of another table into a table (`combineEntry`), and then the zeros out of it
(`prune`). -/
def combine (op : Int → Int → Int) (a b : Table) : Except Cause Table :=
  prune <$> b.foldlM (combineEntry op) a

/-- The table of one dimension. -/
def dimension (name : String) : Table := [(name, 1)]

/-- The product of two tables, which is `combine` for sums of exponents. -/
def multiply : Table → Table → Except Cause Table := combine (· + ·)

/-- The quotient of two tables, which is `combine` for differences of exponents. -/
def divide : Table → Table → Except Cause Table := combine (· - ·)

/-- A table with all exponents turned around. -/
def inverse (t : Table) : Except Cause Table := divide [] t

/-- The table of a product of dimensions over another one. -/
def ofFactors (numerator denominator : List String) : Except Cause Table := do
  let above ← numerator.foldlM (fun t name => multiply t (dimension name)) []
  denominator.foldlM (fun t name => divide t (dimension name)) above

/-- Tables that are made by the operations on them (`Table.multiply` and the others) in any
combination, starting from single dimensions and from lists of factors. -/
inductive Made : Table → Prop
  | dimension (name : String) : Made (dimension name)
  | ofFactors {above below : List String} : ofFactors above below = .ok t → Made t
  | multiply : Made a → Made b → a.multiply b = .ok c → Made c
  | divide : Made a → Made b → a.divide b = .ok c → Made c
  | inverse : Made a → a.inverse = .ok c → Made c

/-- The names of a table are in order, so that none occurs twice (`Canonical.nodup`), and no
exponent is zero. -/
structure Canonical (t : Table) : Prop where
  sorted : t.Pairwise fun a b => a.1 < b.1
  nonzero : ∀ entry ∈ t, entry.2 ≠ 0

/-- In a canonical table no name occurs twice. -/
theorem Canonical.nodup {t : Table} (h : t.Canonical) : (t.map Prod.fst).Nodup := by
  refine List.pairwise_map.2 (h.sorted.imp fun hlt => ?_)
  exact String.ne_of_lt hlt

/-- Canonical tables are told apart by their exponents (`Table.exponent`). -/
theorem Canonical.eq_iff {s t : Table} (hs : s.Canonical) (ht : t.Canonical) :
    s = t ↔ ∀ name, s.exponent name = t.exponent name := by
  refine ⟨fun h _ => h ▸ rfl, fun h => ?_⟩
  exact Units.eq_of_exponentIn hs.sorted ht.sorted hs.nonzero ht.nonzero h

/-- A canonical table without exponents is empty. -/
theorem Canonical.eq_nil_iff {t : Table} (h : t.Canonical) :
    t = [] ↔ ∀ name, t.exponent name = 0 :=
  h.eq_iff ⟨.nil, nofun⟩

/-! ## Sorted tables -/

variable {t a b c : Table}

/-- What every step of a fold keeps is there at its end. -/
theorem foldlM_keeps {α β ε : Type} {f : β → α → Except ε β} (kept : β → Prop)
    (hstep : ∀ b a c, kept b → f b a = .ok c → kept c) {as : List α} {b c : β} (hb : kept b)
    (h : as.foldlM f b = .ok c) : kept c := by
  induction as generalizing b with
  | nil =>
    cases h
    exact hb
  | cons a as ih =>
    rw [List.foldlM_cons] at h
    obtain ⟨first, hfirst, h⟩ := Except.bind_eq_ok.1 h
    exact ih (hstep b a first hb hfirst) h

/-- What stands in a table after writing was written or stood there before. -/
theorem mem_set {name : String} {exponent : Int64} {entry : String × Int64}
    (h : entry ∈ t.set name exponent) : entry = (name, exponent) ∨ entry ∈ t := by
  induction t with
  | nil => exact .inl (List.mem_singleton.1 h)
  | cons first t ih =>
    obtain ⟨other, present⟩ := first
    rw [set] at h
    split at h
    next => exact List.mem_cons.1 h
    next =>
      split at h
      next => exact (List.mem_cons.1 h).imp id (List.mem_cons_of_mem _)
      next =>
        rcases List.mem_cons.1 h with rfl | h
        · exact .inr List.mem_cons_self
        · exact (ih h).imp id (List.mem_cons_of_mem _)

/-- Writing keeps a table sorted. -/
theorem pairwise_set {name : String} {exponent : Int64}
    (h : t.Pairwise fun a b => a.1 < b.1) :
    (t.set name exponent).Pairwise fun a b => a.1 < b.1 := by
  induction t with
  | nil => exact List.pairwise_singleton ..
  | cons first t ih =>
    obtain ⟨other, present⟩ := first
    obtain ⟨hother, hrest⟩ := List.pairwise_cons.1 h
    rw [set]
    split
    next hlt =>
      refine h.cons fun entry hmem => ?_
      rcases List.mem_cons.1 hmem with rfl | hmem
      · exact hlt
      · exact String.lt_trans hlt (hother _ hmem)
    next hge =>
      split
      next heq => exact hrest.cons fun entry hmem => heq ▸ hother _ hmem
      next hne =>
        refine (ih hrest).cons fun entry hmem => ?_
        rcases mem_set hmem with rfl | hmem
        · exact Decidable.not_not.1 fun hn => hne (String.le_antisymm hn hge)
        · exact hother _ hmem

/-- An entry that is taken in is written. -/
theorem combineEntry_eq_ok {op : Int → Int → Int} {entry : String × Int64}
    (h : combineEntry op a entry = .ok c) : ∃ exponent, c = a.set entry.1 exponent := by
  unfold combineEntry at h
  split at h
  · cases h
    exact ⟨_, rfl⟩
  · cases h

/-- A sorted table stays sorted while entries are taken in by `combineEntry`, whatever these are. -/
theorem pairwise_foldlM {op : Int → Int → Int} (ha : a.Pairwise fun a b => a.1 < b.1)
    (h : b.foldlM (combineEntry op) a = .ok c) : c.Pairwise fun a b => a.1 < b.1 := by
  refine foldlM_keeps (List.Pairwise fun a b => a.1 < b.1) (fun s entry t hs ht => ?_) ha h
  obtain ⟨exponent, rfl⟩ := combineEntry_eq_ok ht
  exact pairwise_set hs

/-- A sorted table without its zeros is canonical. -/
theorem canonical_prune (h : t.Pairwise fun a b => a.1 < b.1) : t.prune.Canonical where
  sorted := h.filter _
  nonzero _ hmem := of_decide_eq_true (List.mem_filter.1 hmem).2

/-! ## Canonical tables -/

/-- No table is canonical more simply. -/
theorem canonical_nil : Canonical [] := ⟨.nil, nofun⟩

/-- Nothing is left to be taken out of a canonical table. -/
theorem Canonical.prune_eq (h : t.Canonical) : t.prune = t :=
  List.filter_eq_self.2 fun entry hmem => decide_eq_true (h.nonzero entry hmem)

/-- What is combined into a canonical table (`Table.combine`) is canonical, whatever cancels. -/
theorem Canonical.combine {op : Int → Int → Int} (ha : a.Canonical)
    (h : Table.combine op a b = .ok c) : c.Canonical := by
  unfold Table.combine at h
  obtain ⟨t, hb, h⟩ := Except.bind_eq_ok.1 h
  cases h
  exact canonical_prune (pairwise_foldlM ha.sorted hb)

/-- A canonical table stays canonical while dimensions are combined into it. -/
theorem Canonical.foldlM {op : Int → Int → Int} {names : List String} (ha : a.Canonical)
    (h : names.foldlM (fun t name => Table.combine op t (dimension name)) a = .ok c) :
    c.Canonical :=
  foldlM_keeps Canonical (fun _ _ _ hs ht => hs.combine ht) ha h

/-- Tables that are made by the operations (`Made`) are canonical, by induction on how they are
made. -/
theorem Made.canonical (h : Made t) : t.Canonical := by
  induction h with
  | dimension name =>
    refine ⟨List.pairwise_singleton .., fun entry hmem => ?_⟩
    rw [List.mem_singleton.1 hmem]
    exact Int64.zero_ne_one.symm
  | @ofFactors t above below h =>
    unfold Table.ofFactors at h
    obtain ⟨t, habove, h⟩ := Except.bind_eq_ok.1 h
    exact (canonical_nil.foldlM habove).foldlM h
  | multiply _ _ h ih => exact ih.combine h
  | divide _ _ h ih => exact ih.combine h
  | inverse _ h => exact canonical_nil.combine h

end Table

/-! ## Units -/

namespace Units

open Table (prune)

/-- In front of names that are all behind it, an exponent is written by putting it there. -/
theorem putIn_of_lt {name : String} {exponent : Int64} {t : Table}
    (h : ∀ entry ∈ t, name < entry.1) :
    putIn name exponent t = consNonzero name exponent t := by
  cases t with
  | nil => rfl
  | cons first t =>
    obtain ⟨other, present⟩ := first
    rw [putIn, if_pos (h _ List.mem_cons_self)]

/-- What is in front of a table is taken out if it is zero. -/
theorem prune_cons (name : String) (exponent : Int64) (t : Table) :
    prune ((name, exponent) :: t) = consNonzero name exponent t.prune := by
  unfold consNonzero prune
  rw [List.filter_cons]
  by_cases h : exponent = 0
  · rw [if_pos h, if_neg (by simpa using h)]
  · rw [if_neg h, if_pos (by simpa using h)]

/-- Taking out the zeros at the end (`prune`) comes to the same as taking out each when it is
written (`Units.putIn`). -/
theorem prune_set {name : String} {exponent : Int64} {t : Table}
    (h : t.Pairwise fun a b => a.1 < b.1) :
    prune (t.set name exponent) = putIn name exponent t.prune := by
  induction t with
  | nil => exact prune_cons name exponent []
  | cons first t ih =>
    obtain ⟨other, present⟩ := first
    obtain ⟨hother, hrest⟩ := List.pairwise_cons.1 h
    have hpruned : ∀ entry ∈ prune t, other < entry.1 :=
      fun entry hmem => hother _ (List.mem_filter.1 hmem).1
    rw [Table.set]
    split
    next hlt =>
      rw [prune_cons, putIn_of_lt fun entry hmem => ?_]
      rcases List.mem_cons.1 (List.mem_filter.1 hmem).1 with rfl | hmem
      · exact hlt
      · exact String.lt_trans hlt (hother _ hmem)
    next hge =>
      split
      next heq =>
        subst heq
        rw [prune_cons, prune_cons, consNonzero.eq_1 name present]
        split
        · rw [putIn_of_lt hpruned]
        · rw [putIn, if_neg (String.lt_irrefl name), if_pos rfl]
      next hne =>
        rw [prune_cons, prune_cons, ih hrest]
        unfold consNonzero
        split
        · rfl
        · rw [putIn, if_neg hge, if_neg hne]

/-- Zeros do not count. -/
theorem exponentIn_prune {t : Table} (h : t.Pairwise fun a b => a.1 < b.1) (name : String) :
    exponentIn name t.prune = exponentIn name t := by
  induction t with
  | nil => rfl
  | cons first t ih =>
    obtain ⟨other, present⟩ := first
    obtain ⟨hother, hrest⟩ := List.pairwise_cons.1 h
    have hpruned : ∀ entry ∈ prune t, entry.1 ≠ other :=
      fun entry hmem he => String.lt_irrefl _ (he ▸ hother _ (List.mem_filter.1 hmem).1)
    rw [prune_cons, exponentIn_consNonzero hpruned, exponentIn, ih hrest]
    by_cases hname : other = name
    · rw [if_pos hname, if_pos hname.symm]
    · rw [if_neg hname, if_neg (Ne.symm hname)]

variable {u v : Units}

/-- The factors of a unit are a canonical table. -/
theorem canonical_factors (u : Units) : Table.Canonical u.factors := ⟨u.sorted, u.nonzero⟩

/-- Factor by factor, a unit is what a table is without its zeros (`Table.prune`): the step that
carries over from `Table.combineEntry` to `Units.combineFactor`. -/
theorem factors_foldlM {op : Int → Int → Int} {t : Table}
    (ht : t.Pairwise fun a b => a.1 < b.1) (hu : u.factors = t.prune)
    (entries : List (String × Int64)) :
    factors <$> entries.foldlM (combineFactor op) u =
      prune <$> entries.foldlM (Table.combineEntry op) t := by
  induction entries generalizing u t with
  | nil => exact congrArg Except.ok hu
  | cons entry entries ih =>
    have hexponent : u.exponent entry.1 = t.exponent entry.1 := by
      rw [exponent, hu, exponentIn_prune ht]
    rw [List.foldlM_cons, List.foldlM_cons, combineFactor, Table.combineEntry, hexponent]
    cases Integer.ofInt? (op (t.exponent entry.1).toInt entry.2.toInt) with
    | none => rfl
    | some new =>
      refine ih (Table.pairwise_set ht) ?_
      show putIn entry.1 new u.factors = _
      rw [hu, prune_set ht]

/-- Units are combined as tables are (`Table.combine`), refusals included. -/
theorem factors_combine (op : Int → Int → Int) (u v : Units) :
    factors <$> combine op u v = Table.combine op u.factors v.factors :=
  factors_foldlM u.sorted u.canonical_factors.prune_eq.symm v.factors

/-- The product of two units is that of their tables. -/
theorem factors_multiply (u v : Units) :
    factors <$> u.multiply v = Table.multiply u.factors v.factors :=
  factors_combine _ u v

/-- The quotient of two units is that of their tables. -/
theorem factors_divide (u v : Units) :
    factors <$> u.divide v = Table.divide u.factors v.factors :=
  factors_combine _ u v

/-- The inverse of a unit is that of its table. -/
theorem factors_inverse (u : Units) : factors <$> u.inverse = Table.inverse u.factors :=
  factors_divide one u

/-- Dimensions are combined into a unit as into its table. -/
theorem factors_foldlM_dimension (op : Int → Int → Int) (names : List String) (u : Units) :
    factors <$> names.foldlM (fun u name => combine op u (dimension name)) u =
      names.foldlM (fun t name => Table.combine op t (Table.dimension name)) u.factors := by
  induction names generalizing u with
  | nil => rfl
  | cons name names ih =>
    rw [List.foldlM_cons, List.foldlM_cons]
    have hfirst := factors_combine op u (dimension name)
    rw [show (dimension name).factors = Table.dimension name from rfl] at hfirst
    rw [← hfirst]
    cases combine op u (dimension name) with
    | error cause => rfl
    | ok v => exact ih v

/-- The unit of lists of factors is that of their table (`Table.ofFactors`), refusals included. -/
theorem factors_ofFactors (numerator denominator : List String) :
    factors <$> ofFactors numerator denominator = Table.ofFactors numerator denominator := by
  unfold ofFactors Table.ofFactors
  have habove := factors_foldlM_dimension (· + ·) numerator one
  rw [show one.factors = [] from rfl] at habove
  show factors <$> (numerator.foldlM (fun u name => combine (· + ·) u (dimension name)) one >>= _) =
    (numerator.foldlM (fun t name => Table.combine (· + ·) t (Table.dimension name)) [] >>= _)
  rw [← habove]
  cases numerator.foldlM (fun u name => combine (· + ·) u (dimension name)) one with
  | error cause => rfl
  | ok above => exact factors_foldlM_dimension (· - ·) denominator above

end Units

end UnitScript
