import Mathlib.Data.List.Infix

/-!
This module contains the splitting of a stream into packages: `next` says how long the package at
the front of a stream is, as soon as enough of the stream is there to know.
-/

namespace StreamSplit

variable {α : Type} {next : List α → Option Nat} {bound : Nat}

/--
The complete packages at the front of a stream, and an incomplete one that is left over. No length
that is announced exceeds the bound.
-/
inductive Splits (next : List α → Option Nat) (bound : Nat)
    : List α → List (List α) → List α → Prop
  | rest (stream : List α) (h : ∀ n, next stream = some n → stream.length < n ∧ n ≤ bound)
      : Splits next bound stream [] stream
  | package (pkg stream : List α) (pkgs : List (List α)) (rest : List α) (hne : pkg ≠ [])
      (hnext : next (pkg ++ stream) = some pkg.length) (hbound : pkg.length ≤ bound)
      (h : Splits next bound stream pkgs rest)
      : Splits next bound (pkg ++ stream) (pkg :: pkgs) rest

def Stable (next : List α → Option Nat) : Prop :=
  ∀ xs ys n, next xs = some n → next (xs ++ ys) = some n

section Framed

structure Framed (next : List α → Option Nat) (bound : Nat) (pkg : List α) : Prop where
  ne_nil : pkg ≠ []
  le : pkg.length ≤ bound
  next_append : ∀ stream, next (pkg ++ stream) = some pkg.length

theorem Framed.next_of_prefix {pkg xs : List α} (h : Framed next bound pkg) (hstable : Stable next)
    (hpre : xs <+: pkg) {n : Nat} (hn : next xs = some n)
    : n = pkg.length := by
  rcases hpre with ⟨ys, hys⟩
  have hall := hstable xs ys n hn
  have hpkg := h.next_append []
  rw [List.append_nil] at hpkg
  rw [hys, hpkg] at hall
  simpa using hall.symm

theorem cons_prefix_iff {pkg : List α} {pkgs qs : List (List α)} {stream : List α}
    (hne : pkg ≠ []) (hqs : ∀ rs, rs <+: pkgs → (rs <+: qs ↔ rs.flatten.length ≤ stream.length))
    : ∀ rs, rs <+: pkg :: pkgs →
        (rs <+: pkg :: qs ↔ rs.flatten.length ≤ (pkg ++ stream).length) := by
  intro rs hrs
  cases rs with
  | nil => simp
  | cons r rs =>
    rcases List.cons_prefix_cons.mp hrs with ⟨heq, htail⟩
    subst heq
    rw [List.cons_prefix_cons, List.flatten_cons, List.length_append, List.length_append,
      Nat.add_le_add_iff_left, ← hqs rs htail]
    simp

theorem splits_of_prefix (hstable : Stable next) (hnil : next [] = none)
    : ∀ {pkgs : List (List α)} {stream : List α}, (∀ pkg, pkg ∈ pkgs → Framed next bound pkg) →
        stream <+: pkgs.flatten →
          ∃ qs rest, Splits next bound stream qs rest ∧ qs <+: pkgs ∧
            ∀ rs, rs <+: pkgs → (rs <+: qs ↔ rs.flatten.length ≤ stream.length) := by
  intro pkgs
  induction pkgs with
  | nil =>
    intro stream _ hstream
    have hempty : stream = [] := List.prefix_nil.mp hstream
    subst hempty
    refine ⟨[], [], .rest [] (by simp [hnil]), List.prefix_rfl, ?_⟩
    intro rs hrs
    simp [List.prefix_nil.mp hrs]
  | cons pkg pkgs ih =>
    intro stream hframed hstream
    have hpkg := hframed pkg List.mem_cons_self
    rw [List.flatten_cons] at hstream
    cases Nat.lt_or_ge stream.length pkg.length with
    | inl hlt =>
      have hpre : stream <+: pkg :=
        List.prefix_of_prefix_length_le hstream (List.prefix_append _ _) (Nat.le_of_lt hlt)
      refine ⟨[], stream, .rest stream ?_, List.nil_prefix, ?_⟩
      . intro n hn
        rw [hpkg.next_of_prefix hstable hpre hn]
        exact ⟨hlt, hpkg.le⟩
      . intro rs hrs
        cases rs with
        | nil => simp
        | cons r rs =>
          rcases List.cons_prefix_cons.mp hrs with ⟨heq, _⟩
          subst heq
          simp
          omega
    | inr hge =>
      have hpre : pkg <+: stream :=
        List.prefix_of_prefix_length_le (List.prefix_append _ _) hstream hge
      rcases hpre with ⟨tail, htail⟩
      subst htail
      rw [List.prefix_append_right_inj] at hstream
      have hframed' : ∀ q, q ∈ pkgs → Framed next bound q := by
        intro q hq
        exact hframed q (List.mem_cons_of_mem _ hq)
      rcases ih hframed' hstream with ⟨qs, rest, hsplits, hqs, hiff⟩
      refine ⟨pkg :: qs, rest, ?_, ?_, cons_prefix_iff hpkg.ne_nil hiff⟩
      . exact .package pkg tail qs rest hpkg.ne_nil (hpkg.next_append tail) hpkg.le hsplits
      . exact List.cons_prefix_cons.mpr ⟨rfl, hqs⟩

end Framed

section Feed

-- `fuel` is at least the length of the stream.
def split (next : List α → Option Nat) (fuel : Nat) (stream : List α)
    : List (List α) × List α :=
  match fuel with
  | 0 => ([], stream)
  | fuel + 1 =>
    match next stream with
    | some n =>
      if 0 < n ∧ n ≤ stream.length then
        let (pkgs, rest) := split next fuel (stream.drop n)
        (stream.take n :: pkgs, rest)
      else
        ([], stream)
    | none => ([], stream)

-- The packages that are delivered while the chunks of a stream arrive one by one.
def feed (next : List α → Option Nat) (buffer : List α) (chunks : List (List α))
    : List (List α) :=
  match chunks with
  | [] => []
  | chunk :: chunks =>
    let (pkgs, rest) := split next (buffer ++ chunk).length (buffer ++ chunk)
    pkgs ++ feed next rest chunks

def AtRest (next : List α → Option Nat) (stream : List α) : Prop :=
  ∀ n, next stream = some n → ¬ (0 < n ∧ n ≤ stream.length)

theorem splits_split_append (hstable : Stable next) (ys : List α) {rest : List α}
    : ∀ (fuel : Nat) (xs : List α) {pkgs : List (List α)}, xs.length ≤ fuel →
        Splits next bound (xs ++ ys) pkgs rest →
          ∃ qs, pkgs = (split next fuel xs).1 ++ qs ∧
            Splits next bound ((split next fuel xs).2 ++ ys) qs rest ∧
            AtRest next (split next fuel xs).2 := by
  intro fuel
  induction fuel with
  | zero =>
    intro xs pkgs hfuel h
    refine ⟨pkgs, rfl, h, ?_⟩
    intro n _ hn
    simp only [split] at hn
    omega
  | succ fuel ih =>
    intro xs pkgs hfuel h
    cases hnext : next xs with
    | none =>
      simp only [split, hnext]
      refine ⟨pkgs, rfl, h, ?_⟩
      simp [AtRest, hnext]
    | some n =>
      simp only [split, hnext]
      by_cases hn : 0 < n ∧ n ≤ xs.length
      . rw [if_pos hn]
        dsimp only
        have hall := hstable xs ys n hnext
        generalize hstream : xs ++ ys = stream at h hall
        cases h with
        | rest stream h =>
          have hlt := (h n hall).left
          rw [← hstream, List.length_append] at hlt
          omega
        | package pkg stream pkgs rest hne hlength hbound h =>
          rw [hlength, Option.some.injEq] at hall
          have htake : xs.take n = pkg :=
            calc
              xs.take n = (xs ++ ys).take n := (List.take_append_of_le_length hn.right).symm
              _ = pkg := by simp [hstream, ← hall]
          have hdrop : xs.drop n ++ ys = stream :=
            calc
              xs.drop n ++ ys = (xs ++ ys).drop n := (List.drop_append_of_le_length hn.right).symm
              _ = stream := by simp [hstream, ← hall]
          rw [← hdrop] at h
          have hfuel' : (xs.drop n).length ≤ fuel := by
            rw [List.length_drop]
            omega
          rcases ih (xs.drop n) hfuel' h with ⟨qs, hpkgs, hsplits, hrest⟩
          refine ⟨qs, ?_, hsplits, hrest⟩
          rw [htake, hpkgs]
          rfl
      . rw [if_neg hn]
        refine ⟨pkgs, rfl, h, ?_⟩
        intro m hm
        rw [hnext, Option.some.injEq] at hm
        rwa [← hm]

/--
However a stream is cut into chunks, the packages delivered are those that it splits into.
-/
theorem feed_of_splits (hstable : Stable next)
    : ∀ {chunks : List (List α)} {buffer rest : List α} {pkgs : List (List α)},
        AtRest next buffer → Splits next bound (buffer ++ chunks.flatten) pkgs rest →
          feed next buffer chunks = pkgs := by
  intro chunks
  induction chunks with
  | nil =>
    intro buffer rest pkgs hbuffer h
    rw [List.flatten_nil, List.append_nil] at h
    cases h with
    | rest stream h => rfl
    | package pkg stream pkgs rest hne hnext hbound h =>
      have hpos := List.length_pos_iff.mpr hne
      exact absurd ⟨hpos, by simp⟩ (hbuffer _ hnext)
  | cons chunk chunks ih =>
    intro buffer rest pkgs hbuffer h
    rw [List.flatten_cons, ← List.append_assoc] at h
    rcases splits_split_append hstable chunks.flatten _ _ (Nat.le_refl _) h with
      ⟨qs, hpkgs, hsplits, hrest⟩
    unfold feed
    dsimp only
    rw [ih hrest hsplits, hpkgs]

end Feed

section TooLong

/--
A length that exceeds the bound is announced behind some complete packages.
-/
inductive TooLong (next : List α → Option Nat) (bound : Nat) : List α → Prop
  | announced (stream : List α) (n : Nat) (hnext : next stream = some n) (hn : bound < n)
      : TooLong next bound stream
  | package (pkg stream : List α) (hnext : next (pkg ++ stream) = some pkg.length)
      (h : TooLong next bound stream)
      : TooLong next bound (pkg ++ stream)

theorem Splits.not_tooLong {stream rest : List α} {pkgs : List (List α)}
    (h : Splits next bound stream pkgs rest)
    : ¬ TooLong next bound stream := by
  induction h with
  | rest stream h =>
    intro hlong
    cases hlong with
    | announced _ n hnext hn =>
      have hle := (h n hnext).right
      omega
    | package pkg stream hnext _ =>
      have hlt := (h _ hnext).left
      rw [List.length_append] at hlt
      omega
  | package pkg stream pkgs rest _ hnext hbound _ ih =>
    intro hlong
    generalize hall : pkg ++ stream = all at hlong hnext
    cases hlong with
    | announced _ n hn hlt =>
      rw [hnext, Option.some.injEq] at hn
      omega
    | package pkg' stream' hnext' hlong =>
      rw [hnext, Option.some.injEq] at hnext'
      have htail := (List.append_inj hall hnext').right
      rw [← htail] at hlong
      exact ih hlong

theorem exists_splits (hpos : ∀ stream n, next stream = some n → 0 < n)
    : ∀ (fuel : Nat) (stream : List α), stream.length ≤ fuel → ¬ TooLong next bound stream →
        ∃ pkgs rest, Splits next bound stream pkgs rest := by
  intro fuel
  induction fuel with
  | zero =>
    intro stream hfuel hlong
    refine ⟨[], stream, .rest stream ?_⟩
    intro n hn
    have hn0 := hpos stream n hn
    apply And.intro
    . omega
    . apply Nat.le_of_not_lt
      intro hlt
      exact hlong (.announced stream n hn hlt)
  | succ fuel ih =>
    intro stream hfuel hlong
    have hle : ∀ n, next stream = some n → n ≤ bound := by
      intro n hn
      apply Nat.le_of_not_lt
      intro hlt
      exact hlong (.announced stream n hn hlt)
    by_cases hrest : ∀ n, next stream = some n → stream.length < n
    . refine ⟨[], stream, .rest stream ?_⟩
      intro n hn
      exact ⟨hrest n hn, hle n hn⟩
    . rw [not_forall₂] at hrest
      rcases hrest with ⟨n, hn, hlt⟩
      have hn0 := hpos stream n hn
      have hlength : (stream.take n).length = n := by
        rw [List.length_take]
        omega
      have hnext : next (stream.take n ++ stream.drop n) = some (stream.take n).length := by
        rw [List.take_append_drop, hlength, hn]
      have htail : ¬ TooLong next bound (stream.drop n) := by
        intro h
        apply hlong
        rw [← List.take_append_drop n stream]
        exact .package _ _ hnext h
      have hfuel' : (stream.drop n).length ≤ fuel := by
        rw [List.length_drop]
        omega
      rcases ih _ hfuel' htail with ⟨pkgs, rest, hsplits⟩
      refine ⟨stream.take n :: pkgs, rest, ?_⟩
      have h := Splits.package _ _ pkgs rest ?_ hnext ?_ hsplits
      . rwa [List.take_append_drop] at h
      . apply List.ne_nil_of_length_pos
        omega
      . rw [hlength]
        exact hle n hn

theorem Splits.lt_of_next {stream rest : List α} {pkgs : List (List α)}
    (h : Splits next bound stream pkgs rest)
    : ∀ n, next rest = some n → rest.length < n := by
  induction h with
  | rest stream h =>
    intro n hn
    exact (h n hn).left
  | package _ _ _ _ _ _ _ _ ih => exact ih

end TooLong

end StreamSplit
