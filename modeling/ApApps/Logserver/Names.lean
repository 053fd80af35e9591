import ApApps.Logserver.Main

/- The names of archives.

   `idOf_name`: the sequence number is found in a name, as neither `end` nor a version stamp
   of ten digits has six digits between two underscores. `nameKey_lt_iff`: two names with
   different numbers are ordered by the stamps, and by the numbers if the stamps are the
   same. -/
namespace ApApps.Logserver

/-- An archive with a stamp of ten digits and a number of six. -/
structure Archive where
  stamp : Bytes
  id : Nat
  time : Date
  stamp_length : stamp.length = 10
  stamp_digits : ∀ c ∈ stamp, isDigit c = true
  id_lt : id < 10 ^ 6

def Archive.name (a : Archive) : Bytes := archiveName a.stamp a.id a.time

/-- The stamp, as a number. -/
def Archive.version (a : Archive) : Nat := digitsVal 10 a.stamp

/-! ## Numbers -/

theorem digitsVal_map_ch {cs : List Char} (h : ∀ c ∈ cs, c.isDigit) :
    digitsVal 10 (cs.map ch) = Nat.ofDigitChars 10 cs 0 := by
  unfold digitsVal
  generalize (0 : Nat) = a
  induction cs generalizing a with
  | nil => rfl
  | cons c cs ih =>
    obtain ⟨hc, hcs⟩ := List.forall_mem_cons.mp h
    rw [List.map_cons, List.foldl_cons, ih hcs, Nat.ofDigitChars_cons, (ch_digit hc).2, Nat.mul_comm]
    rfl

/-- A number that fits is printed with its width, in digits, and they have its value. -/
theorem formatD_spec {width n : Nat} (hw : 0 < width) (h : n < 10 ^ width) :
    (formatD width n).length = width ∧ (∀ c ∈ formatD width n, isDigit c = true) ∧
      digitsVal 10 (formatD width n) = n := by
  have hdigits : ∀ c ∈ List.replicate (width - (Nat.toDigits 10 n).length) '0' ++ Nat.toDigits 10 n,
      c.isDigit := by
    intro c hc
    rcases List.mem_append.mp hc with hc | hc
    · rw [List.eq_of_mem_replicate hc]
      rfl
    · exact Nat.isDigit_of_mem_toDigits (by decide) (by decide) hc
  have hlen : (Nat.toDigits 10 n).length ≤ width := (Nat.length_toDigits_le_iff (by decide) hw).mpr h
  refine ⟨?_, ?_, ?_⟩
  · simp only [formatD, List.length_map, List.length_append, List.length_replicate]
    omega
  · intro c hc
    obtain ⟨d, hd, rfl⟩ := List.mem_map.mp hc
    exact (ch_digit (hdigits d hd)).1
  · rw [formatD, digitsVal_map_ch hdigits, Nat.ofDigitChars_append, Nat.ofDigitChars_replicate_zero,
      Nat.mul_zero, Nat.ofDigitChars_ten_toDigits]

/-! ## The sequence number -/

theorem idMatch_cons (c : UInt8) (s : Bytes) : idMatch (c :: s) = (idAt (c :: s)).or (idMatch s) := by
  rw [idMatch, List.tails_cons, List.findSome?_cons]
  cases idAt (c :: s) <;> rfl

theorem digitsAfter_other {first c : UInt8} {width : Nat} (s : Bytes) (h : c ≠ first) :
    digitsAfter first width (c :: s) = none := by
  rw [digitsAfter, if_neg]
  rintro ⟨heq, -⟩
  exact h heq

/-- What has no underscore is passed over. -/
theorem idMatch_skip {w : Bytes} (h : ∀ c ∈ w, c ≠ ch '_') (s : Bytes) : idMatch (w ++ s) = idMatch s := by
  induction w with
  | nil => rfl
  | cons c w ih =>
    obtain ⟨hc, hw⟩ := List.forall_mem_cons.mp h
    rw [List.cons_append, idMatch_cons, idAt, digitsAfter_other _ hc]
    exact ih hw

theorem digitsAfter_digits {first : UInt8} {ds s : Bytes} {width : Nat} (hlen : ds.length = width)
    (hds : ∀ c ∈ ds, isDigit c = true) : digitsAfter first width (first :: (ds ++ s)) = some (ds, s) := by
  rw [digitsAfter, List.take_left' hlen, List.drop_left' hlen, if_pos]
  exact ⟨rfl, hlen, List.all_eq_true.mpr hds⟩

theorem digitsAfter_spec {first : UInt8} {width : Nat} {s ds rest : Bytes}
    (h : digitsAfter first width s = some (ds, rest)) : ds.length = width ∧ ∀ c ∈ ds, isDigit c = true := by
  cases s with
  | nil => cases h
  | cons c s =>
    rw [digitsAfter, ite_eq_iff] at h
    rcases h with ⟨⟨-, hlen, hall⟩, heq⟩ | ⟨-, heq⟩
    · cases heq
      exact ⟨hlen, fun d hd => List.all_eq_true.mp hall d hd⟩
    · cases heq

theorem ne_underscore : ∀ c : UInt8, isDigit c = true → c ≠ ch '_' := by
  decide +kernel

theorem idOf_name (a : Archive) : idOf a.name = some a.id := by
  obtain ⟨hlen, hdigits, hval⟩ := formatD_spec (by decide) a.id_lt
  have hname : a.name = ascii "log" ++ (ch '_' :: (ascii "end" ++ (ch '_' :: (a.stamp ++
      (ch '_' :: (formatD 6 a.id ++ (ch '_' :: a.time.text))))))) := by
    simp [Archive.name, archiveName, ascii, ch]
  have hmatch : idMatch a.name = some (formatD 6 a.id) := by
    rw [hname, idMatch_skip (by decide +kernel), idMatch_cons]
    -- an `e` is no digit
    have hend : idAt (ch '_' :: (ascii "end" ++ (ch '_' :: (a.stamp ++
        (ch '_' :: (formatD 6 a.id ++ (ch '_' :: a.time.text))))))) = none := by
      rw [idAt, digitsAfter, if_neg]
      rintro ⟨-, -, hall⟩
      revert hall
      exact Bool.noConfusion
    rw [hend, Option.none_or, idMatch_skip (by decide +kernel), idMatch_cons]
    -- the stamp goes on after six digits
    have hstamp : idAt (ch '_' :: (a.stamp ++ (ch '_' :: (formatD 6 a.id ++ (ch '_' :: a.time.text))))) = none := by
      have hcut : a.stamp = a.stamp.take 6 ++ a.stamp.drop 6 := (List.take_append_drop 6 a.stamp).symm
      have hsix : (a.stamp.take 6).length = 6 := by
        rw [List.length_take, a.stamp_length]
        rfl
      have hrest : (a.stamp.drop 6).length = 4 := by rw [List.length_drop, a.stamp_length]
      obtain ⟨d, ds, hd⟩ := List.exists_cons_of_length_eq_add_one hrest
      have hdigit : isDigit d = true :=
        a.stamp_digits d (List.mem_of_mem_drop (hd ▸ List.mem_cons_self : d ∈ a.stamp.drop 6))
      rw [idAt, hcut, List.append_assoc,
        digitsAfter_digits hsix fun c hc => a.stamp_digits c (List.mem_of_mem_take hc), hd]
      exact if_neg (ne_underscore d hdigit)
    rw [hstamp, Option.none_or, idMatch_skip fun c hc => ne_underscore c (a.stamp_digits c hc), idMatch_cons,
      idAt, digitsAfter_digits hlen hdigits]
    rfl
  rw [idOf, hmatch, Option.map_some, hval]

/-! ## The order -/

theorem digit_range : ∀ c : UInt8, isDigit c = true → 48 ≤ c.toNat ∧ c.toNat ≤ 57 ∧ hexaValue c = c.toNat - 48 := by
  decide +kernel

/-- Strings of digits of the same length are ordered as their values are, whatever comes after
them; `a` and `b` are the values of what comes before. -/
theorem digits_lt_from {xs ys : Bytes} (h : xs.length = ys.length) (hxs : ∀ c ∈ xs, isDigit c = true)
    (hys : ∀ c ∈ ys, isDigit c = true) (us vs : List Nat) (a b : Nat) :
    (a < b ∨ a = b ∧ nameKey xs ++ us < nameKey ys ++ vs) ↔
      xs.foldl (fun n c => n * 10 + hexaValue c) a < ys.foldl (fun n c => n * 10 + hexaValue c) b ∨
      xs.foldl (fun n c => n * 10 + hexaValue c) a = ys.foldl (fun n c => n * 10 + hexaValue c) b ∧ us < vs := by
  induction xs generalizing ys a b with
  | nil =>
    rw [List.eq_nil_of_length_eq_zero h.symm]
    rfl
  | cons x xs ih =>
    cases ys with
    | nil => cases h
    | cons y ys =>
      obtain ⟨hx, hxs⟩ := List.forall_mem_cons.mp hxs
      obtain ⟨hy, hys⟩ := List.forall_mem_cons.mp hys
      obtain ⟨hx48, hx57, hxval⟩ := digit_range x hx
      obtain ⟨hy48, hy57, hyval⟩ := digit_range y hy
      rw [List.foldl_cons, List.foldl_cons, ← ih (Nat.succ.inj h) hxs hys]
      have hcons : nameKey (x :: xs) ++ us < nameKey (y :: ys) ++ vs ↔
          x.toNat < y.toNat ∨ x.toNat = y.toNat ∧ nameKey xs ++ us < nameKey ys ++ vs := List.cons_lt_cons_iff
      rw [hcons, hxval, hyval]
      by_cases hrest : nameKey xs ++ us < nameKey ys ++ vs
      · simp only [hrest, and_true]
        omega
      · simp only [hrest, and_false, or_false]
        omega

theorem digits_lt_iff {xs ys : Bytes} (h : xs.length = ys.length) (hxs : ∀ c ∈ xs, isDigit c = true)
    (hys : ∀ c ∈ ys, isDigit c = true) (us vs : List Nat) :
    nameKey xs ++ us < nameKey ys ++ vs ↔
      digitsVal 10 xs < digitsVal 10 ys ∨ digitsVal 10 xs = digitsVal 10 ys ∧ us < vs := by
  have hfrom := digits_lt_from h hxs hys us vs 0 0
  simp only [lt_irrefl, false_or, true_and] at hfrom
  exact hfrom

/-- Names with different numbers are ordered by the stamps first. -/
theorem nameKey_lt_iff {a b : Archive} (h : a.id ≠ b.id) :
    nameKey a.name < nameKey b.name ↔ a.version < b.version ∨ a.version = b.version ∧ a.id < b.id := by
  obtain ⟨halen, hadigits, haval⟩ := formatD_spec (by decide) a.id_lt
  obtain ⟨hblen, hbdigits, hbval⟩ := formatD_spec (by decide) b.id_lt
  have hname : ∀ c : Archive, nameKey c.name = nameKey (ascii "log_end_") ++ (nameKey c.stamp ++
      (nameKey (ascii "_") ++ (nameKey (formatD 6 c.id) ++ nameKey (ascii "_" ++ c.time.text)))) := by
    intro c
    simp [Archive.name, archiveName, nameKey]
  have hprefix : ∀ (w us vs : List Nat), w ++ us < w ++ vs ↔ us < vs := by
    intro w us vs
    induction w with
    | nil => rfl
    | cons c w ih =>
      rw [List.cons_append, List.cons_append, List.cons_lt_cons_iff]
      simp [ih]
  rw [hname, hname, hprefix, digits_lt_iff (a.stamp_length.trans b.stamp_length.symm) a.stamp_digits b.stamp_digits,
    hprefix, digits_lt_iff (halen.trans hblen.symm) hadigits hbdigits, haval, hbval]
  simp only [h, false_and, or_false]
  rfl

theorem nameKey_injective : Function.Injective nameKey :=
  List.map_injective_iff.mpr fun _ _ h => UInt8.toNat_inj.mp h

end ApApps.Logserver
