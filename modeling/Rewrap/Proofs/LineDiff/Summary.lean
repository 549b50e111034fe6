import Rewrap.Proofs.LineDiff.Script

/-! # Summaries are edit scripts

A summary of a change lists removed and added lines by their numbers. Each side of the change is
seen as its lines with a mark on those that changed; what is not marked is the same on both sides.
So a reader who strikes out the removed lines of the one text and the added lines of the other is
left with the same lines twice. -/

namespace Rewrap.LineDiff

/-! ## Ends of lines -/

/-- Whether the character ends a line. -/
def isEnd (c : Char) : Bool := c == '\r' || c == '\n'

/-- What is left of a line once the characters that end it are taken away. -/
structure IsContentOf (shown : Text) (l : Line) : Prop where
  ends : ∃ ending, l = shown ++ ending ∧ ∀ c ∈ ending, isEnd c = true
  bare : ∀ c ∈ shown, isEnd c = false

theorem content_append {shown ending : Text} (hbare : ∀ c ∈ shown, isEnd c = false)
    (hending : ∀ c ∈ ending, isEnd c = true) : content (shown ++ ending) = shown := by
  have hkept : shown.reverse.dropWhile isEnd = shown.reverse := by
    cases hshown : shown.reverse with
    | nil => rfl
    | cons c cs =>
        have hc : c ∈ shown := List.mem_reverse.mp (hshown ▸ List.mem_cons_self)
        rw [List.dropWhile_cons_of_neg (by simp [hbare c hc])]
  change ((shown ++ ending).reverse.dropWhile isEnd).reverse = shown
  rw [List.reverse_append,
    List.dropWhile_append_of_pos fun c hc => hending c (List.mem_reverse.mp hc), hkept,
    List.reverse_reverse]

theorem lines_cons_of_not_isEnd {c : Char} (hc : isEnd c = false) (t : Text) :
    lines (c :: t) = consChar c (lines t) := by
  have hreturn : ∀ u, c = '\r' → t = '\n' :: u → False := by
    rintro u rfl
    cases hc
  rw [lines.eq_3 c t hreturn]
  exact if_neg (by simpa [isEnd] using hc)

theorem lines_cons_of_isEnd {c : Char} (hc : isEnd c = true) {t : Text}
    (ht : c = '\r' → t.head? ≠ some '\n') : lines (c :: t) = [c] :: lines t := by
  have hreturn : ∀ u, c = '\r' → t = '\n' :: u → False := by
    rintro u hcr rfl
    exact ht hcr rfl
  rw [lines.eq_3 c t hreturn]
  exact if_pos hc

/-- A line holds characters that end it only at its end. -/
theorem exists_isContentOf {t : Text} {l : Line} (h : l ∈ lines t) :
    ∃ shown, IsContentOf shown l := by
  fun_induction lines t generalizing l with
  | case1 => cases h
  | case2 t ih =>
      rcases List.mem_cons.mp h with rfl | h
      · exact ⟨[], ⟨['\r', '\n'], rfl, by simp [isEnd]⟩, by simp⟩
      · exact ih h
  | case3 c t _ hc ih =>
      rcases List.mem_cons.mp h with rfl | h
      · exact ⟨[], ⟨[c], rfl, List.forall_mem_singleton.mpr hc⟩, by simp⟩
      · exact ih h
  | case4 c t _ hc ih =>
      have hc : isEnd c = false := Bool.eq_false_iff.mpr hc
      cases ht : lines t with
      | nil =>
          rw [ht, consChar, List.mem_singleton] at h
          subst h
          exact ⟨[c], ⟨[], rfl, by simp⟩, List.forall_mem_singleton.mpr hc⟩
      | cons l' ls =>
          rw [ht] at ih h
          rcases List.mem_cons.mp h with rfl | h
          · obtain ⟨shown, ⟨ending, rfl, hending⟩, hbare⟩ := ih List.mem_cons_self
            exact ⟨c :: shown, ⟨ending, rfl, hending⟩,
              List.forall_mem_cons.mpr ⟨hc, hbare⟩⟩
          · exact ih (List.mem_cons_of_mem _ h)

theorem isContentOf_content {t : Text} {l : Line} (h : l ∈ lines t) :
    IsContentOf (content l) l := by
  obtain ⟨shown, hshown⟩ := exists_isContentOf h
  obtain ⟨ending, rfl, hending⟩ := hshown.ends
  rwa [content_append hshown.bare hending]

/-! ## Texts put together from lines -/

theorem consChar_append {c : Char} {ls : List Line} (h : ls ≠ []) (ls' : List Line) :
    consChar c (ls ++ ls') = consChar c ls ++ ls' := by
  cases ls with
  | nil => exact absurd rfl h
  | cons l ls => rfl

theorem lines_ne_nil {t : Text} (h : t ≠ []) : lines t ≠ [] := by
  intro hnil
  refine h ?_
  rw [← flatten_lines t, hnil, List.flatten_nil]

theorem lines_append (t u : Text) : lines (t ++ '\n' :: u) = lines (t ++ ['\n']) ++ lines u := by
  fun_induction lines t with
  | case1 => rfl
  | case2 t ih => simp only [List.cons_append, lines, ih]
  | case3 c t hpair hc ih =>
      cases t with
      | nil =>
          rcases (Bool.or_eq_true _ _).mp hc with hc | hc
          · obtain rfl := eq_of_beq hc
            rfl
          · obtain rfl := eq_of_beq hc
            rfl
      | cons d t =>
          have hcons : ∀ v, lines (c :: d :: t ++ v) = [c] :: lines (d :: t ++ v) := by
            refine fun v => lines_cons_of_isEnd hc ?_
            rintro rfl hd
            exact hpair t rfl (by rw [Option.some.inj hd])
          rw [hcons, hcons, ih]
          rfl
  | case4 c t hpair hc ih =>
      have hc : isEnd c = false := Bool.eq_false_iff.mpr hc
      rw [List.cons_append, lines_cons_of_not_isEnd hc, ih, List.cons_append,
        lines_cons_of_not_isEnd hc, consChar_append (lines_ne_nil (by simp))]

theorem lines_of_bare {t : Text} (h : ∀ c ∈ t, isEnd c = false) :
    lines (t ++ ['\n']) = [t ++ ['\n']] := by
  induction t with
  | nil => rfl
  | cons c t ih =>
      obtain ⟨hc, ht⟩ := List.forall_mem_cons.mp h
      rw [List.cons_append, lines_cons_of_not_isEnd hc, ih ht]
      rfl

/-! ## Marked lines -/

/-- The lines of one side of a block, with a mark on those that changed. -/
def marked (added : Bool) : Block Line → List (Bool × Line)
  | .kept xs => xs.map (false, ·)
  | .change ds is _ _ => (if added then is else ds).map (true, ·)

/-- The marked lines with their numbers, when the first one has the number `n`. -/
def numberMarked (added : Bool) (n : Nat) : List (Bool × Line) → List ChangedLine
  | [] => []
  | (true, l) :: ms => ⟨added, n, l⟩ :: numberMarked added (n + 1) ms
  | (false, _) :: ms => numberMarked added (n + 1) ms

/-- The lines without the listed ones; the first one has the number `n`. -/
def withoutFrom (n : Nat) (cs : List ChangedLine) (ls : List Line) : List Line :=
  ((ls.zipIdx n).filter fun (_, k) => !cs.any (·.number == k)).map Prod.fst

variable {added : Bool} {n : Nat} {ms : List (Bool × Line)} {c : ChangedLine}
  {cs : List ChangedLine}

theorem numberMarked_append (added : Bool) (n : Nat) (ms ms' : List (Bool × Line)) :
    numberMarked added n (ms ++ ms') =
      numberMarked added n ms ++ numberMarked added (n + ms.length) ms' := by
  induction ms generalizing n with
  | nil => rfl
  | cons m ms ih =>
      obtain ⟨mark, l⟩ := m
      have hnumber : n + 1 + ms.length = n + (ms.length + 1) := by omega
      cases mark with
      | true => simp only [List.cons_append, numberMarked, ih, List.length_cons, hnumber]
      | false => simp only [List.cons_append, numberMarked, ih, List.length_cons, hnumber]

theorem numberMarked_kept (added : Bool) (n : Nat) (ls : List Line) :
    numberMarked added n (ls.map (false, ·)) = [] := by
  induction ls generalizing n with
  | nil => rfl
  | cons l ls ih => exact ih (n + 1)

theorem numberMarked_changed (added : Bool) (n : Nat) (ls : List Line) :
    numberMarked added n (ls.map (true, ·)) = numbered added n ls := by
  induction ls generalizing n with
  | nil => rfl
  | cons l ls ih => exact congrArg (ChangedLine.mk added n l :: ·) (ih (n + 1))

theorem le_number (h : c ∈ numberMarked added n ms) : n ≤ c.number := by
  induction ms generalizing n with
  | nil => cases h
  | cons m ms ih =>
      obtain ⟨mark, l⟩ := m
      cases mark with
      | true =>
          rcases List.mem_cons.mp h with rfl | h
          · exact Nat.le_refl _
          · exact Nat.le_of_succ_le (ih h)
      | false => exact Nat.le_of_succ_le (ih h)

theorem pairwise_numberMarked (added : Bool) (n : Nat) (ms : List (Bool × Line)) :
    (numberMarked added n ms).Pairwise (·.number < ·.number) := by
  induction ms generalizing n with
  | nil => exact .nil
  | cons m ms ih =>
      obtain ⟨mark, l⟩ := m
      cases mark with
      | true => exact .cons (fun c hc => le_number hc) (ih (n + 1))
      | false => exact ih (n + 1)

theorem getElem?_of_mem_numberMarked (h : c ∈ numberMarked added n ms) :
    (ms.map Prod.snd)[c.number - n]? = some c.line := by
  induction ms generalizing n with
  | nil => cases h
  | cons m ms ih =>
      have hrest : ∀ {l}, c ∈ numberMarked added (n + 1) ms →
          (l :: ms.map Prod.snd)[c.number - n]? = some c.line := by
        intro l h
        have hnumber : c.number - n = c.number - (n + 1) + 1 := by
          have := le_number h
          omega
        rw [hnumber, List.getElem?_cons_succ, ih h]
      obtain ⟨mark, l⟩ := m
      cases mark with
      | true =>
          rcases List.mem_cons.mp h with rfl | h
          · simp
          · exact hrest h
      | false => exact hrest h

theorem withoutFrom_cons_of_lt (h : c.number < n) (ls : List Line) :
    withoutFrom n (c :: cs) ls = withoutFrom n cs ls := by
  unfold withoutFrom
  refine congrArg (List.map Prod.fst) (List.filter_congr fun x hx => ?_)
  obtain ⟨l, k⟩ := x
  have hne : (c.number == k) = false := by
    have hk := List.le_snd_of_mem_zipIdx hx
    simp only [beq_eq_false_iff_ne]
    omega
  simp only [List.any_cons, hne, Bool.false_or]

theorem withoutFrom_numberMarked (added : Bool) (n : Nat) (ms : List (Bool × Line)) :
    withoutFrom n (numberMarked added n ms) (ms.map Prod.snd) =
      (ms.filter (!·.1)).map Prod.snd := by
  induction ms generalizing n with
  | nil => rfl
  | cons m ms ih =>
      obtain ⟨mark, l⟩ := m
      cases mark with
      | true =>
          have hrest : withoutFrom n (numberMarked added n ((true, l) :: ms))
              (l :: ms.map Prod.snd) =
              withoutFrom (n + 1) (numberMarked added n ((true, l) :: ms)) (ms.map Prod.snd) := by
            simp [withoutFrom, numberMarked]
          rw [List.map_cons, hrest, numberMarked, withoutFrom_cons_of_lt (Nat.lt_succ_self n), ih]
          rfl
      | false =>
          have hfresh : (numberMarked added (n + 1) ms).any (·.number == n) = false := by
            refine List.any_eq_false.mpr fun c hc => ?_
            have := le_number hc
            simp only [beq_iff_eq]
            omega
          have hrest : withoutFrom n (numberMarked added (n + 1) ms) (l :: ms.map Prod.snd) =
              l :: withoutFrom (n + 1) (numberMarked added (n + 1) ms) (ms.map Prod.snd) := by
            simp [withoutFrom, hfresh]
          rw [numberMarked, List.map_cons, hrest, ih]
          rfl

/-! ## Marked blocks -/

/-- The lines of one side of a block. -/
def Block.side (added : Bool) (b : Block Line) : List Line := if added then b.new else b.old

/-- The changed lines of one side: those that were added, or those that were removed. -/
def ofSide (added : Bool) (cs : List ChangedLine) : List ChangedLine :=
  cs.filter (·.added == added)

theorem ofSide_numbered (added added' : Bool) (n : Nat) (ls : List Line) :
    ofSide added (numbered added' n ls) = if added' = added then numbered added' n ls else [] := by
  induction ls generalizing n with
  | nil => simp [numbered, ofSide]
  | cons l ls ih =>
      have hcons : ofSide added (numbered added' n (l :: ls)) =
          (if added' = added then [⟨added', n, l⟩] else []) ++
            ofSide added (numbered added' (n + 1) ls) := by
        by_cases h : added' = added <;> simp [ofSide, numbered, h]
      rw [hcons, ih]
      split <;> rfl

/-- The changed lines of one side are its marked lines with their numbers. -/
theorem ofSide_changedLines (added : Bool) (i j : Nat) (bs : List (Block Line)) :
    ofSide added (changedLines i j bs) =
      numberMarked added ((if added then j else i) + 1) (bs.flatMap (marked added)) := by
  induction bs generalizing i j with
  | nil => rfl
  | cons b bs ih =>
      rw [List.flatMap_cons, numberMarked_append]
      cases b with
      | kept xs =>
          rw [changedLines, ih, marked, numberMarked_kept, List.nil_append, List.length_map]
          cases added <;> simp only [if_true, Bool.false_eq_true, if_false, Nat.add_right_comm]
      | change ds is _ _ =>
          have happend : ∀ cs cs', ofSide added (cs ++ cs') =
              ofSide added cs ++ ofSide added cs' := fun cs cs' =>
            List.filter_append cs cs'
          rw [changedLines, happend, happend, ofSide_numbered, ofSide_numbered, ih, marked,
            numberMarked_changed, List.length_map]
          cases added <;> simp [Nat.add_right_comm]

@[simp] theorem map_snd_mark (mark : Bool) (ls : List Line) :
    (ls.map (mark, ·)).map Prod.snd = ls := by
  rw [List.map_map]
  exact List.map_id ls

@[simp] theorem filter_fst_mark (mark : Bool) (ls : List Line) :
    (ls.map (mark, ·)).filter Prod.fst = if mark then ls.map (mark, ·) else [] := by
  cases mark <;> simp

@[simp] theorem filter_not_fst_mark (mark : Bool) (ls : List Line) :
    (ls.map (mark, ·)).filter (!·.1) = if mark then [] else ls.map (mark, ·) := by
  cases mark <;> simp

theorem snd_marked (added : Bool) (bs : List (Block Line)) :
    (bs.flatMap (marked added)).map Prod.snd = bs.flatMap (Block.side added) := by
  rw [List.map_flatMap]
  refine List.flatMap_congr fun b _ => ?_
  cases b with
  | kept xs => cases added <;> exact map_snd_mark false xs
  | change ds is _ _ => cases added <;> exact map_snd_mark true _

/-- What is not marked is the same on both sides. -/
theorem unmarked_eq (bs : List (Block Line)) :
    (bs.flatMap (marked false)).filter (!·.1) = (bs.flatMap (marked true)).filter (!·.1) := by
  rw [List.filter_flatMap, List.filter_flatMap]
  refine List.flatMap_congr fun b _ => ?_
  cases b with
  | kept xs => rfl
  | change ds is _ _ =>
      rw [marked, marked, filter_not_fst_mark, filter_not_fst_mark, if_pos rfl, if_pos rfl]

theorem length_numberMarked (added : Bool) (n : Nat) (ms : List (Bool × Line)) :
    (numberMarked added n ms).length = (ms.filter Prod.fst).length := by
  induction ms generalizing n with
  | nil => rfl
  | cons m ms ih =>
      obtain ⟨mark, l⟩ := m
      cases mark <;> simp [numberMarked, ih]

theorem length_marked (added : Bool) (bs : List (Block Line)) :
    ((bs.flatMap (marked added)).filter Prod.fst).length =
      ((bs.filter Block.isChange).flatMap (Block.side added)).length := by
  induction bs with
  | nil => rfl
  | cons b bs ih =>
      rw [List.flatMap_cons, List.filter_append, List.length_append, ih]
      cases b with
      | kept xs =>
          rw [marked, filter_fst_mark, List.filter_cons_of_neg (by simp [Block.isChange])]; simp
      | change ds is i j =>
          have hside : (Block.change ds is i j).side added = if added then is else ds := rfl
          rw [marked, filter_fst_mark, if_pos rfl, List.length_map, List.filter_cons_of_pos rfl,
            List.flatMap_cons, List.length_append, hside]

theorem length_ofSide (added : Bool) (bs : List (Block Line)) :
    (ofSide added (changedLines 0 0 bs)).length =
      ((bs.filter Block.isChange).flatMap (Block.side added)).length := by
  rw [ofSide_changedLines, length_numberMarked, length_marked]

/-- The statistics count the changed lines of each side. -/
theorem stats_eq (bs : List (Block Line)) :
    stats bs = ⟨(stats bs).filesChanged, (ofSide true (changedLines 0 0 bs)).length,
      (ofSide false (changedLines 0 0 bs)).length⟩ := by
  rw [length_ofSide, length_ofSide]
  rfl

/-! ## Equal texts -/

theorem commonPrefix_self {α : Type} [BEq α] [LawfulBEq α] (xs : List α) :
    commonPrefix xs xs = xs.length := by
  induction xs with
  | nil => rfl
  | cons x xs ih => simp [commonPrefix, ih]

theorem script_self {α : Type} [BEq α] [LawfulBEq α] (xs : List α) :
    script xs xs = keeping xs := by
  simp [script, scriptFrom, commonPrefix_self, commonSuffix, keeping]

theorem compactKind_keeping {α : Type} [BEq α] {isKind : Op α → Bool}
    (h : ∀ ys, isKind (.keep ys) = false) (xs : List α) :
    compactKind isKind (keeping xs) = keeping xs := by
  have hfrom : ∀ n (before after : List (Op α)), (∀ r ∈ after, isKind r = false) →
      compactFrom isKind n before after = before.reverse ++ after := by
    intro n
    induction n with
    | zero => exact fun _ _ _ => rfl
    | succ n ih =>
        intro before after hafter
        cases after with
        | nil => simp [compactFrom]
        | cons r after =>
            obtain ⟨hr, hafter⟩ := List.forall_mem_cons.mp hafter
            rw [compactFrom, if_neg (by simp [hr]), ih _ _ hafter]
            simp
  refine hfrom _ [] _ fun r hr => ?_
  unfold keeping at hr
  split at hr
  · cases hr
  · rw [List.mem_singleton.mp hr, h]

theorem filter_isChange_ofTexts_self (t : Text) : (ofTexts t t).filter Block.isChange = [] := by
  rw [ofTexts, diff, script_self, compact, compactKind_keeping fun _ => rfl,
    compactKind_keeping fun _ => rfl]
  unfold keeping
  split <;> rfl

/-! ## Summaries -/

/-- The changed lines are lines of a text by their numbers, which are counted from 1 and
increase. -/
structure AreLinesOf (cs : List ChangedLine) (ls : List Line) : Prop where
  increasing : cs.Pairwise (·.number < ·.number)
  line : ∀ c ∈ cs, 0 < c.number ∧ ls[c.number - 1]? = some c.line

/-- The lines without the listed ones. -/
def without (cs : List ChangedLine) (ls : List Line) : List Line := withoutFrom 1 cs ls

/-- The text of a changed line up to the line feed at its end. -/
def ChangedLine.body (c : ChangedLine) : Text :=
  ("  " ++ (if c.added then "+" else "-") ++ column c.number ++ ": ").toList ++ content c.line

theorem ChangedLine.text_eq (c : ChangedLine) : c.text.toList = c.body ++ ['\n'] := by
  simp [text, body, String.toList_append]

theorem isEnd_of_mem_column {n : Nat} {c : Char} (h : c ∈ (column n).toList) :
    isEnd c = false := by
  have hdigits : toString n = String.ofList (Nat.toDigits 10 n) := Nat.toString_eq_ofList_toDigits
  simp only [column, hdigits, String.toList_append, String.toList_ofList, List.mem_append] at h
  rcases h with h | h
  · obtain rfl := List.eq_of_mem_replicate h
    rfl
  · have hdigit := Nat.isDigit_of_mem_toDigits (by decide) (by decide) h
    rw [isEnd, Bool.or_eq_false_iff, beq_eq_false_iff_ne, beq_eq_false_iff_ne]
    constructor
    · rintro rfl
      cases hdigit
    · rintro rfl
      cases hdigit

theorem ChangedLine.bare_body {c : ChangedLine} (h : IsContentOf (content c.line) c.line) :
    ∀ x ∈ c.body, isEnd x = false := by
  have hblanks : ∀ x ∈ "  ".toList, isEnd x = false := by simp [isEnd]
  have hcolon : ∀ x ∈ ": ".toList, isEnd x = false := by simp [isEnd]
  have hsign : ∀ x ∈ (if c.added then "+" else "-").toList, isEnd x = false := by
    cases c.added <;> simp [isEnd]
  intro x hx
  simp only [body, String.toList_append, List.mem_append] at hx
  rcases hx with (((hx | hx) | hx) | hx) | hx
  · exact hblanks x hx
  · exact hsign x hx
  · exact isEnd_of_mem_column hx
  · exact hcolon x hx
  · exact h.bare x hx

theorem lines_join {cs : List ChangedLine} (h : ∀ c ∈ cs, IsContentOf (content c.line) c.line) :
    lines (String.join (cs.map ChangedLine.text)).toList = cs.map (·.text.toList) := by
  induction cs with
  | nil => rfl
  | cons c cs ih =>
      obtain ⟨hc, hcs⟩ := List.forall_mem_cons.mp h
      rw [List.map_cons, String.join_cons, String.toList_append, c.text_eq, List.append_assoc,
        List.singleton_append,
        lines_append, lines_of_bare (c.bare_body hc), ih hcs, List.map_cons, c.text_eq]
      rfl

/-- The changed lines of one side are lines of that side, and without them the lines are left that
are not marked. -/
theorem ofSide_spec (added : Bool) (bs : List (Block Line)) :
    AreLinesOf (ofSide added (changedLines 0 0 bs)) (bs.flatMap (Block.side added)) ∧
      without (ofSide added (changedLines 0 0 bs)) (bs.flatMap (Block.side added)) =
        ((bs.flatMap (marked added)).filter (!·.1)).map Prod.snd := by
  have hfirst : (if added then 0 else 0) + 1 = 1 := by simp
  rw [ofSide_changedLines, hfirst, ← snd_marked]
  exact ⟨⟨pairwise_numberMarked _ _ _,
    fun c hc => ⟨le_number hc, getElem?_of_mem_numberMarked hc⟩⟩,
    withoutFrom_numberMarked _ _ _⟩

theorem flatMap_side_ofTexts (old new : Text) :
    (ofTexts old new).flatMap (Block.side false) = lines old ∧
      (ofTexts old new).flatMap (Block.side true) = lines new :=
  ⟨(makesUp_diff (lines old) (lines new)).old_eq, (makesUp_diff (lines old) (lines new)).new_eq⟩

theorem mem_lines_of_mem_changedLines {old new : Text} {c : ChangedLine}
    (h : c ∈ changedLines 0 0 (ofTexts old new)) : ∃ t, c.line ∈ lines t := by
  have hside : ∀ added, c.added = added →
      c.line ∈ (ofTexts old new).flatMap (Block.side added) := by
    intro added hadded
    have hmem : c ∈ ofSide added (changedLines 0 0 (ofTexts old new)) :=
      List.mem_filter.mpr ⟨h, beq_iff_eq.mpr hadded⟩
    exact List.mem_of_getElem? ((ofSide_spec added (ofTexts old new)).1.line c hmem).2
  obtain ⟨hold, hnew⟩ := flatMap_side_ofTexts old new
  cases hadded : c.added with
  | false => exact ⟨old, hold ▸ hside false hadded⟩
  | true => exact ⟨new, hnew ▸ hside true hadded⟩

theorem filesChanged_ofTexts_eq (old new : Text) :
    (stats (ofTexts old new)).filesChanged = if old = new then 0 else 1 := by
  by_cases h : old = new
  · subst h
    rw [filesChanged_stats, filter_isChange_ofTexts_self, if_pos rfl]
    exact if_pos ⟨rfl, rfl⟩
  · rw [if_neg h, filesChanged_ofTexts h]

/-- The summary of a change has a line for each changed line after its header. The removed lines are
lines of the old text and the added ones of the new text, each by its increasing number and shown
without the characters that end it. Without these lines the texts have the same lines in the same
order. The statistics count the removed and the added lines, and whether the texts differ. -/
theorem summary_isEditScript (path : String) (old new : Text) :
    let cs := changedLines 0 0 (ofTexts old new)
    lines (summary path (ofTexts old new)).toList =
        lines (path ++ ":\n").toList ++ cs.map (·.text.toList) ∧
      AreLinesOf (ofSide false cs) (lines old) ∧ AreLinesOf (ofSide true cs) (lines new) ∧
      (∀ c ∈ cs, IsContentOf (content c.line) c.line) ∧
      without (ofSide false cs) (lines old) = without (ofSide true cs) (lines new) ∧
      stats (ofTexts old new) =
        ⟨if old = new then 0 else 1, (ofSide true cs).length, (ofSide false cs).length⟩ := by
  intro cs
  obtain ⟨hold, hnew⟩ := flatMap_side_ofTexts old new
  obtain ⟨hremoved, hkeptOld⟩ := ofSide_spec false (ofTexts old new)
  obtain ⟨hadded, hkeptNew⟩ := ofSide_spec true (ofTexts old new)
  rw [hold] at hremoved hkeptOld
  rw [hnew] at hadded hkeptNew
  have hshown : ∀ c ∈ cs, IsContentOf (content c.line) c.line := by
    intro c hc
    obtain ⟨t, ht⟩ := mem_lines_of_mem_changedLines hc
    exact isContentOf_content ht
  refine ⟨?_, hremoved, hadded, hshown, hkeptOld.trans (unmarked_eq _ ▸ hkeptNew.symm), ?_⟩
  · have hheader : (path ++ ":\n").toList = (path ++ ":").toList ++ ['\n'] := by
      simp [String.toList_append]
    have hsummary : (summary path (ofTexts old new)).toList =
        (path ++ ":").toList ++ '\n' :: (String.join (cs.map ChangedLine.text)).toList := by
      rw [summary, String.toList_append, hheader, List.append_assoc, List.singleton_append]
    rw [hsummary, lines_append, lines_join hshown, hheader]
  · rw [← filesChanged_ofTexts_eq]
    exact stats_eq _

end Rewrap.LineDiff
