import Mathlib
import Rewrap.Proofs.Timestamp.Calendar
import Rewrap.Timestamp.Text

/-! # Timestamps are read back

The text of a timestamp of the calendar is read as the timestamp, and whatever is read is of the
calendar. -/

namespace Rewrap.Timestamp

/-- A point in time that the calendar and the clock know. -/
structure IsValid (t : Timestamp) : Prop where
  date : isDate t.year t.month t.day = true
  hour : t.hour < 24
  minute : t.minute < 60
  second : t.second ≤ 60
  nano : t.nano < 1000000000

/-! ## Digits -/

theorem digitsValue_eq (ds : Text) : Reader.digitsValue ds = Nat.ofDigitChars 10 ds 0 := by
  rw [Nat.ofDigitChars_eq_foldl]
  unfold Reader.digitsValue
  simp only [Nat.mul_comm]

theorem toList_padded (width n : Nat) :
    (padded width n).toList =
      List.replicate (width - (Nat.toDigits 10 n).length) '0' ++ Nat.toDigits 10 n := by
  have hdigits : toString n = String.ofList (Nat.toDigits 10 n) := Nat.toString_eq_ofList_toDigits
  unfold padded
  simp [hdigits]

theorem digitsValue_padded (width n : Nat) : Reader.digitsValue (padded width n).toList = n := by
  rw [digitsValue_eq, toList_padded, Nat.ofDigitChars_append, Nat.ofDigitChars_replicate_zero,
    Nat.mul_zero, Nat.ofDigitChars_ten_toDigits]

theorem isDigit_of_mem_padded {width n : Nat} {c : Char} (hc : c ∈ (padded width n).toList) :
    c.isDigit = true := by
  rw [toList_padded] at hc
  rcases List.mem_append.mp hc with hc | hc
  · obtain rfl := List.eq_of_mem_replicate hc
    decide
  · exact Nat.isDigit_of_mem_toDigits (by decide) (by decide) hc

theorem padded_ne_nil (width n : Nat) : (padded width n).toList ≠ [] := by
  rw [toList_padded]
  simp [Nat.toDigits_ne_nil]

theorem length_padded {width n : Nat} (hwidth : 0 < width) (hn : n < 10 ^ width) :
    (padded width n).toList.length = width := by
  have hlength := (Nat.length_toDigits_le_iff (by decide) hwidth).mpr hn
  rw [toList_padded, List.length_append, List.length_replicate]
  omega

theorem toNat_of_isDigit {c : Char} (h : c.isDigit = true) : 48 ≤ c.toNat ∧ c.toNat ≤ 57 := by
  simp only [Char.isDigit, Bool.and_eq_true, decide_eq_true_eq] at h
  exact ⟨UInt32.le_iff_toNat_le.mp h.1, UInt32.le_iff_toNat_le.mp h.2⟩

theorem not_isWhiteSpace_of_isDigit {c : Char} (h : c.isDigit = true) : isWhiteSpace c = false := by
  have hc := toNat_of_isDigit h
  simp only [isWhiteSpace, Bool.or_eq_false_iff, Bool.and_eq_false_iff, decide_eq_false_iff_not,
    beq_eq_false_iff_ne]
  omega

theorem digitsValue_lt {ds : Text} (h : ∀ c ∈ ds, c.isDigit = true) :
    Reader.digitsValue ds < 10 ^ ds.length := by
  rw [digitsValue_eq]
  induction ds with
  | nil => simp
  | cons c ds ih =>
      have hc := toNat_of_isDigit (h c List.mem_cons_self)
      have hrest := ih fun c hc => h c (List.mem_cons_of_mem _ hc)
      have hdigit : c.toNat - '0'.toNat ≤ 9 := by
        have hzero : '0'.toNat = 48 := rfl
        omega
      have hproduct : 10 ^ ds.length * (c.toNat - '0'.toNat) ≤ 10 ^ ds.length * 9 :=
        Nat.mul_le_mul_left _ hdigit
      rw [Nat.ofDigitChars_cons, Nat.ofDigitChars_eq_ofDigitChars_zero,
        List.length_cons, Nat.pow_succ, Nat.mul_zero, Nat.zero_add]
      omega

namespace Reader

variable {α β : Type} {x : Reader α} {f : α → Reader β} {a : α} {t u : Text}

/-! ## Readers -/

theorem bind_of_some (h : x t = some (a, u)) : (x >>= f) t = f a u := by
  change (x t).bind _ = _
  rw [h]
  rfl

theorem bind_eq_some {b : β} (h : (x >>= f) t = some (b, u)) :
    ∃ a t', x t = some (a, t') ∧ f a t' = some (b, u) := by
  change (x t).bind _ = _ at h
  obtain ⟨⟨a, t'⟩, hx, hf⟩ := Option.bind_eq_some_iff.mp h
  exact ⟨a, t', hx, hf⟩

theorem space_of_isDigit {ds : Text} (hne : ds ≠ []) (hds : ∀ c ∈ ds, c.isDigit = true)
    (t : Text) : space (ds ++ t) = some ((), ds ++ t) := by
  cases ds with
  | nil => exact absurd rfl hne
  | cons c ds =>
      have hc := not_isWhiteSpace_of_isDigit (hds c List.mem_cons_self)
      change some ((), (c :: (ds ++ t)).dropWhile isWhiteSpace) = _
      rw [List.dropWhile_cons, hc]
      rfl

theorem digits_eq (limit : Option Nat) (t : Text) :
    digits limit t =
      (let read := match limit with
        | some n => (t.takeWhile Char.isDigit).take n
        | none => t.takeWhile Char.isDigit
       if read.isEmpty then none else some (read, t.drop read.length)) := by
  unfold digits
  rw [bind_of_some (show (get : Reader Text) t = some (t, t) from rfl)]
  cases limit with
  | none =>
      simp only
      split <;> rfl
  | some n =>
      simp only
      split <;> rfl

theorem digits_of_not_isDigit (limit : Option Nat) {ds : Text} (hne : ds ≠ [])
    (hds : ∀ c ∈ ds, c.isDigit = true) (hlimit : ∀ n ∈ limit, ds.length ≤ n) {c : Char}
    (hc : c.isDigit = false) (t : Text) : digits limit (ds ++ c :: t) = some (ds, c :: t) := by
  have htake : (ds ++ c :: t).takeWhile Char.isDigit = ds := by
    rw [List.takeWhile_append_of_pos hds, List.takeWhile_cons, hc]
    simp
  rw [digits_eq, htake]
  cases limit with
  | none => simp [hne]
  | some n =>
      have hn : ds.take n = ds := List.take_of_length_le (hlimit n rfl)
      simp [hn, hne]

theorem digits_of_length {ds : Text} (hne : ds ≠ []) (hds : ∀ c ∈ ds, c.isDigit = true)
    (t : Text) : digits (some ds.length) (ds ++ t) = some (ds, t) := by
  have htake : ((ds ++ t).takeWhile Char.isDigit).take ds.length = ds := by
    rw [List.takeWhile_append_of_pos hds, List.take_left']
    rfl
  rw [digits_eq]
  simp only [htake]
  simp [hne]

/-! ## Parts of a timestamp -/

theorem twoDigits_padded {n : Nat} (hn : n < 100) (t : Text) :
    twoDigits ((padded 2 n).toList ++ t) = some (n, t) := by
  have hdigits : ∀ c ∈ (padded 2 n).toList, c.isDigit = true := fun c => isDigit_of_mem_padded
  have hread := digits_of_length (padded_ne_nil 2 n) hdigits t
  rw [length_padded (by decide) hn] at hread
  unfold twoDigits
  rw [bind_of_some (space_of_isDigit (padded_ne_nil 2 n) hdigits t), bind_of_some hread,
    digitsValue_padded]
  rfl

theorem marked_padded {mark : Char} (hmark : isWhiteSpace mark = false) {n : Nat} (hn : n < 100)
    (t : Text) : marked mark (mark :: ((padded 2 n).toList ++ t)) = some (n, t) := by
  have hspace : space (mark :: ((padded 2 n).toList ++ t)) =
      some ((), mark :: ((padded 2 n).toList ++ t)) := by
    change some ((), (mark :: ((padded 2 n).toList ++ t)).dropWhile isWhiteSpace) = _
    rw [List.dropWhile_cons, hmark]
    rfl
  have hone : oneOf [mark] (mark :: ((padded 2 n).toList ++ t)) =
      some (mark, (padded 2 n).toList ++ t) := by
    unfold oneOf
    rw [bind_of_some (show (get : Reader Text) _ = some (_, _) from rfl)]
    simp
    rfl
  unfold marked
  rw [bind_of_some hspace, bind_of_some hone]
  exact twoDigits_padded hn t

theorem get_eq (t : Text) : (get : Reader Text) t = some (t, t) := rfl

theorem space_of_not_isWhiteSpace {c : Char} (hc : isWhiteSpace c = false) (t : Text) :
    space (c :: t) = some ((), c :: t) := by
  change some ((), (c :: t).dropWhile isWhiteSpace) = _
  rw [List.dropWhile_cons, hc]
  rfl

theorem year_minus {ds : Text} (h : digits none t = some (ds, u)) :
    year ('-' :: t) = some (-(digitsValue ds : Int), u) := by
  have hread : (do return -(digitsValue (← digits none) : Int) : Reader Int) t =
      some (-(digitsValue ds : Int), u) := by
    rw [bind_of_some h]
    rfl
  exact hread

theorem year_plus {ds : Text} (h : digits none t = some (ds, u)) :
    year ('+' :: t) = some ((digitsValue ds : Int), u) := by
  have hread : (do return (digitsValue (← digits none) : Int) : Reader Int) t =
      some ((digitsValue ds : Int), u) := by
    rw [bind_of_some h]
    rfl
  exact hread

theorem year_unsigned {c : Char} {ds : Text} (hc : c.isDigit = true)
    (h : digits (some 4) (c :: t) = some (ds, u)) :
    year (c :: t) = some ((digitsValue ds : Int), u) := by
  have hread : (do return (digitsValue (← digits (some 4)) : Int) : Reader Int) (c :: t) =
      some ((digitsValue ds : Int), u) := by
    rw [bind_of_some h]
    rfl
  unfold year
  rw [bind_of_some (space_of_not_isWhiteSpace (not_isWhiteSpace_of_isDigit hc) t),
    bind_of_some (get_eq _)]
  generalize hread' : c :: t = text at hread
  split
  · next rest =>
      obtain ⟨rfl, -⟩ := List.cons.inj hread'
      exact absurd hc (by decide)
  · next rest =>
      obtain ⟨rfl, -⟩ := List.cons.inj hread'
      exact absurd hc (by decide)
  · exact hread

theorem year_yearText (y : Int) {c : Char} (hc : c.isDigit = false) (t : Text) :
    year ((yearText y).toList ++ c :: t) = some (y, c :: t) := by
  have hdigits : ∀ c ∈ (padded 4 y.natAbs).toList, c.isDigit = true := fun c =>
    isDigit_of_mem_padded
  have hread := digits_of_not_isDigit none (padded_ne_nil 4 y.natAbs) hdigits (by simp) hc t
  unfold yearText
  split
  · next hneg =>
      have hyear := year_minus hread
      have hvalue : -(y.natAbs : Int) = y := by omega
      rw [digitsValue_padded, hvalue] at hyear
      simpa [String.toList_append] using hyear
  · next hneg =>
      have hvalue : (y.natAbs : Int) = y := by omega
      split
      · have hlength : (padded 4 y.natAbs).toList.length = 4 :=
          length_padded (by decide) (by omega)
        have hfull := digits_of_length (padded_ne_nil 4 y.natAbs) hdigits (c :: t)
        obtain ⟨d, ds, hd⟩ := List.exists_cons_of_ne_nil (padded_ne_nil 4 y.natAbs)
        have hdigit : d.isDigit = true := hdigits d (by simp [hd])
        rw [hlength, hd, List.cons_append] at hfull
        have hyear := year_unsigned hdigit hfull
        rw [← hd, digitsValue_padded, hvalue] at hyear
        rw [hd]
        exact hyear
      · have hyear := year_plus hread
        rw [digitsValue_padded, hvalue] at hyear
        simpa [String.toList_append] using hyear

theorem fraction_point {ds : Text} (h : digits (some 9) t = some (ds, u)) :
    fraction ('.' :: t) = some (digitsValue (ds ++ List.replicate (9 - ds.length) '0'),
      u.dropWhile Char.isDigit) := by
  have hread : (do
      let read ← digits (some 9)
      modify (·.dropWhile Char.isDigit)
      return digitsValue (read ++ List.replicate (9 - read.length) '0') : Reader Nat) t =
        some (digitsValue (ds ++ List.replicate (9 - ds.length) '0'),
          u.dropWhile Char.isDigit) := by
    rw [bind_of_some h]
    rfl
  exact hread

theorem fraction_padded (width : Nat) {n : Nat} (hwidth : 0 < width) (hnine : width ≤ 9)
    (hn : n < 10 ^ width) {c : Char} (hc : c.isDigit = false) (t : Text) :
    fraction (("." ++ padded width n).toList ++ c :: t) = some (10 ^ (9 - width) * n, c :: t) := by
  have hlength := length_padded hwidth hn
  have hread := digits_of_not_isDigit (some 9) (padded_ne_nil width n)
    (fun c => isDigit_of_mem_padded) (by simpa [hlength] using hnine) hc t
  have hfraction := fraction_point hread
  have hvalue : digitsValue ((padded width n).toList ++ List.replicate (9 - width) '0') =
      10 ^ (9 - width) * n := by
    rw [digitsValue_eq, Nat.ofDigitChars_append, Nat.ofDigitChars_replicate_zero,
      ← digitsValue_eq, digitsValue_padded]
  have hdrop : (c :: t).dropWhile Char.isDigit = c :: t := by
    rw [List.dropWhile_cons, hc]
    rfl
  rw [hlength, hvalue, hdrop] at hfraction
  simpa [String.toList_append] using hfraction

theorem fraction_none {c : Char} (hpoint : c ≠ '.') (t : Text) :
    fraction (c :: t) = some (0, c :: t) := by
  unfold fraction
  rw [bind_of_some (get_eq _)]
  generalize hread : c :: t = text
  split
  · next rest => exact absurd (List.cons.inj hread).1 hpoint
  · rfl

theorem fraction_fractionText {n : Nat} (hn : n < 1000000000) {c : Char} (hc : c.isDigit = false)
    (hpoint : c ≠ '.') (t : Text) :
    fraction ((fractionText n).toList ++ c :: t) = some (n, c :: t) := by
  unfold fractionText
  split
  · next hzero =>
      obtain rfl : n = 0 := by simpa using hzero
      exact fraction_none hpoint t
  · split
    · next hthree =>
        have hvalue : 10 ^ (9 - 3) * (n / 1000000) = n := by
          have hdvd : n % 1000000 = 0 := by simpa using hthree
          omega
        have hread := fraction_padded 3 (n := n / 1000000) (by decide) (by decide) (by omega) hc t
        rw [hvalue] at hread
        exact hread
    · split
      · next hsix =>
          have hvalue : 10 ^ (9 - 6) * (n / 1000) = n := by
            have hdvd : n % 1000 = 0 := by simpa using hsix
            omega
          have hread := fraction_padded 6 (n := n / 1000) (by decide) (by decide) (by omega) hc t
          rw [hvalue] at hread
          exact hread
      · have hread := fraction_padded 9 (n := n) (by decide) (by decide) (by omega) hc t
        simpa using hread

theorem offset_utc (t : Text) : offset ('Z' :: t) = some (0, t) := by
  have hutc : isUtc ('Z' :: t) = false := by
    simp only [isUtc, List.take_succ_cons, List.map_cons, show Char.toLower 'Z' = 'z' by decide]
    rw [beq_eq_false_iff_ne]
    intro h
    exact absurd (List.cons.inj h).1 (by decide)
  unfold offset
  rw [bind_of_some (get_eq _)]
  simp only [hutc, Bool.false_eq_true, if_false]
  rfl

theorem toList_text (x : Timestamp) : x.text.toList =
    (yearText x.year).toList ++ '-' ::
        ((padded 2 x.month).toList ++ '-' :: ((padded 2 x.day).toList ++
      'T' :: ((padded 2 x.hour).toList ++ ':' :: ((padded 2 x.minute).toList ++
        ':' :: ((padded 2 x.second).toList ++ ((fractionText x.nano).toList ++ ['Z'])))))) := by
  simp [Timestamp.text, dateText, String.toList_append]

/-- The text of a timestamp is read as the timestamp. -/
theorem timestamp_text {x : Timestamp} (h : x.IsValid) :
    timestamp x.text.toList = some (x, []) := by
  obtain ⟨hyear, hmonth, hday⟩ : isYear x.year = true ∧ x.month < 100 ∧ x.day < 100 := by
    have hdate := h.date
    have hdays : daysInMonth x.year x.month ≤ 31 := by
      unfold daysInMonth
      repeat' split
      all_goals omega
    simp only [isDate, Bool.and_eq_true, decide_eq_true_eq] at hdate
    exact ⟨hdate.1.1.1.1, by omega, by omega⟩
  have hhour := h.hour
  have hminute := h.minute
  have hsecond := h.second
  have hT : ∀ u, oneOf ['t', 'T', ' '] ('T' :: u) = some ('T', u) := fun u => rfl
  unfold timestamp
  rw [toList_text, bind_of_some (year_yearText x.year (by decide) _),
    bind_of_some (marked_padded (by decide) hmonth _),
      bind_of_some (marked_padded (by decide) hday _),
    bind_of_some (hT _), bind_of_some (twoDigits_padded (by omega) _),
    bind_of_some (marked_padded (by decide) (by omega) _),
    bind_of_some (marked_padded (by decide) (by omega) _),
    bind_of_some (fraction_fractionText h.nano (by decide) (by decide) _),
    bind_of_some (space_of_not_isWhiteSpace (by decide) _), bind_of_some (offset_utc _)]
  have hclock : (isDate x.year x.month x.day && decide (x.hour < 24) && decide (x.minute < 60) &&
      decide (x.second ≤ 60)) = true := by
    simp [h.date, hhour, hminute, hsecond]
  have hdays : Int.fdiv ((x.hour : Int) * 60 + x.minute - 0) 1440 = 0 := by
    rw [Int.fdiv_eq_ediv_of_nonneg _ (by decide)]
    omega
  have hminutes : ((x.hour : Int) * 60 + x.minute - 0 - 0 * 1440).toNat =
      x.hour * 60 + x.minute := by
    omega
  have hhours : (x.hour * 60 + x.minute) / 60 = x.hour := by omega
  have hrest : (x.hour * 60 + x.minute) % 60 = x.minute := by omega
  rw [if_pos hclock]
  simp only [hdays, hminutes, hhours, hrest, beq_self_eq_true, if_true, hyear]
  rfl

/-! ## What is read -/

theorem digits_eq_some {limit : Option Nat} {ds : Text} (h : digits limit t = some (ds, u)) :
    (∀ c ∈ ds, c.isDigit = true) ∧ ∀ n ∈ limit, ds.length ≤ n := by
  have hall : ∀ c ∈ t.takeWhile Char.isDigit, c.isDigit = true := fun c =>
    List.mem_takeWhile_imp
  rw [digits_eq] at h
  cases limit with
  | none =>
      simp only at h
      split at h
      · simp at h
      · cases h
        exact ⟨hall, by simp⟩
  | some n =>
      simp only at h
      split at h
      · simp at h
      · cases h
        refine ⟨fun c hc => hall c (List.mem_of_mem_take hc), ?_⟩
        simp

theorem fraction_lt {n : Nat} (h : fraction t = some (n, u)) : n < 1000000000 := by
  unfold fraction at h
  rw [bind_of_some (get_eq _)] at h
  split at h
  · next rest =>
      obtain ⟨-, t₁, -, h⟩ := bind_eq_some h
      obtain ⟨ds, t₂, hds, h⟩ := bind_eq_some h
      obtain ⟨-, t₃, -, h⟩ := bind_eq_some h
      obtain ⟨hdigits, hlength⟩ := digits_eq_some hds
      have hnine := hlength 9 rfl
      have hall : ∀ c ∈ ds ++ List.replicate (9 - ds.length) '0', c.isDigit = true := by
        intro c hc
        rcases List.mem_append.mp hc with hc | hc
        · exact hdigits c hc
        · obtain rfl := List.eq_of_mem_replicate hc
          decide
      have hvalue := digitsValue_lt hall
      rw [List.length_append, List.length_replicate, show ds.length + (9 - ds.length) = 9 by omega]
        at hvalue
      cases h
      exact hvalue
  · cases h
    decide

theorem isValid_of_timestamp {x : Timestamp} (h : timestamp t = some (x, u)) : x.IsValid := by
  unfold timestamp at h
  obtain ⟨year, t, -, h⟩ := bind_eq_some h
  obtain ⟨month, t, -, h⟩ := bind_eq_some h
  obtain ⟨day, t, -, h⟩ := bind_eq_some h
  obtain ⟨-, t, -, h⟩ := bind_eq_some h
  obtain ⟨hour, t, -, h⟩ := bind_eq_some h
  obtain ⟨minute, t, -, h⟩ := bind_eq_some h
  obtain ⟨second, t, -, h⟩ := bind_eq_some h
  obtain ⟨nano, t, hnano, h⟩ := bind_eq_some h
  obtain ⟨-, t, -, h⟩ := bind_eq_some h
  obtain ⟨offset, t, -, h⟩ := bind_eq_some h
  split at h
  · next hclock =>
      simp only [Bool.and_eq_true, decide_eq_true_eq] at hclock
      obtain ⟨⟨⟨hdate, -⟩, -⟩, hsecond⟩ := hclock
      have hdiv : Int.fdiv ((hour : Int) * 60 + minute - offset) 1440 =
          ((hour : Int) * 60 + minute - offset) / 1440 := Int.fdiv_eq_ediv_of_nonneg _ (by decide)
      simp only [hdiv] at h
      generalize hdays : ((hour : Int) * 60 + minute - offset) / 1440 = days at h
      have hminutes : ((hour : Int) * 60 + minute - offset - days * 1440).toNat < 1440 := by omega
      have hvalid : ∀ y m d, (if days == 0 then (year, month, day)
          else dateOf (dayNumber year month day + days)) = (y, m, d) → isYear y = true →
            isDate y m d = true := by
        intro y m d heq hyear
        split at heq
        · cases heq
          exact hdate
        · obtain ⟨hone, htwelve, hfirst, hlast⟩ :=
            dateOf_spec (dayNumber year month day + days)
          rw [heq] at hone htwelve hfirst hlast
          simp [isDate, hyear, hone, htwelve, hfirst, hlast]
      generalize (if days == 0 then (year, month, day)
        else dateOf (dayNumber year month day + days)) = date at h hvalid
      obtain ⟨y, m, d⟩ := date
      simp only at h
      split at h
      · next hyear =>
          cases h
          exact ⟨hvalid _ _ _ rfl hyear, by simp only; omega, by simp only; omega, hsecond,
            fraction_lt hnano⟩
      · cases h
  · cases h

end Reader

/-- The text of a timestamp is read back. -/
theorem ofText?_text {x : Timestamp} (h : x.IsValid) : ofText? x.text = some x := by
  unfold ofText?
  rw [Reader.timestamp_text h]
  rfl

/-- Whatever is read is a timestamp of the calendar. -/
theorem isValid_of_ofText? {s : String} {x : Timestamp} (h : ofText? s = some x) : x.IsValid := by
  unfold ofText? at h
  split at h
  · next y rest hy =>
      split at h
      · cases h
        exact Reader.isValid_of_timestamp hy
      · simp at h
  · simp at h

end Rewrap.Timestamp
