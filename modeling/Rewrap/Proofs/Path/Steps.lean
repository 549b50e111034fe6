import Mathlib.Data.List.Basic
import Rewrap.FileTree.Resolution

/-! # Steps of paths

What the steps of a path are when a name is joined to it, and which names they can hold. -/

namespace Rewrap.Path

/-! ## Segments -/

theorem segments_ne_nil (cs : List Char) : segments cs ≠ [] := by
  cases cs with
  | nil => simp [segments]
  | cons c cs =>
      unfold segments
      split
      · simp
      · simp
      · split <;> simp

theorem segments_append_slash (a b : List Char) :
    segments (a ++ '/' :: b) = segments a ++ segments b := by
  induction a with
  | nil => simp [segments]
  | cons c a ih =>
      by_cases hc : c = '/'
      · subst hc
        simp [segments, ih]
      · have hne := segments_ne_nil a
        cases ha : segments a with
        | nil => exact absurd ha hne
        | cons s ss =>
            rw [List.cons_append, segments, segments, ih, ha]
            · rfl
            · simpa using hc
            · simpa using hc

theorem segments_of_no_slash {a : List Char} (ha : '/' ∉ a) : segments a = [a] := by
  induction a with
  | nil => rfl
  | cons c a ih =>
      simp only [List.mem_cons, not_or] at ha
      rw [segments, ih ha.2]
      simpa using fun h => ha.1 h.symm

theorem no_slash_of_mem_segments {cs s : List Char} (hs : s ∈ segments cs) : '/' ∉ s := by
  induction cs generalizing s with
  | nil =>
      obtain rfl : s = [] := by simpa [segments] using hs
      simp
  | cons c cs ih =>
      by_cases hc : c = '/'
      · subst hc
        simp only [segments, List.mem_cons] at hs
        rcases hs with rfl | hs
        · simp
        · exact ih hs
      · have hne := segments_ne_nil cs
        cases hcs : segments cs with
        | nil => exact absurd hcs hne
        | cons s' ss =>
            rw [segments, hcs] at hs
            · simp only [List.mem_cons] at hs
              rcases hs with rfl | hs
              · have := ih (s := s') (by simp [hcs])
                simp only [List.mem_cons, not_or]
                exact ⟨fun h => hc h.symm, this⟩
              · exact ih (by simp [hcs, hs])
            · simpa using hc

/-! ## Names -/

/-- A name that an entry of a folder can have. -/
def IsName (n : String) : Prop := n ≠ "" ∧ n ≠ "." ∧ n ≠ ".." ∧ '/' ∉ n.toList

/-- Every name among the steps is one that an entry can have. -/
def AreProper (cs : List Component) : Prop := ∀ n, .name n ∈ cs → IsName n

theorem componentOf?_of_isName {n : String} (hn : IsName n) :
    componentOf? n.toList = some (.name n) := by
  obtain ⟨hempty, hdot, hdots, -⟩ := hn
  unfold componentOf?
  split
  · next h => exact absurd (String.toList_inj.mp (by simpa using h)) hempty
  · next h => exact absurd (String.toList_inj.mp (by simpa using h)) hdot
  · next h => exact absurd (String.toList_inj.mp (by simpa using h)) hdots
  · simp

theorem isName_of_componentOf? {s : List Char} {n : String} (hslash : '/' ∉ s)
    (h : componentOf? s = some (.name n)) : IsName n := by
  unfold componentOf? at h
  split at h
  · simp at h
  · simp at h
  · simp at h
  · next hempty hdot hdots =>
      obtain rfl : String.ofList s = n := by simpa using h
      refine ⟨fun h => hempty ?_, fun h => hdot ?_, fun h => hdots ?_, by simpa using hslash⟩
      · simpa using congrArg String.toList h
      · simpa using congrArg String.toList h
      · simpa using congrArg String.toList h

/-! ## Steps -/

/-- The step that a segment stands for. -/
def stepOf? (s : List Char) : Option Component := if s = ['.'] then some .here else componentOf? s

/-- The steps without the one that a slash at the end stands for. -/
def bareSteps (p : Path) : List Component :=
  let names := (segments p.text.toList).filterMap stepOf?
  if p.isAbsolute then .root :: names else names

theorem steps_eq (p : Path) :
    p.steps = p.bareSteps ++ (if p.text.toList.getLast? = some '/' then [.here] else []) := by
  unfold steps bareSteps
  simp only [show (fun s => if s = ['.'] then some .here else componentOf? s) = stepOf? from rfl]
  split <;> split <;> simp

theorem areProper_bareSteps (p : Path) : AreProper p.bareSteps := by
  intro n hn
  have hmem : .name n ∈ (segments p.text.toList).filterMap stepOf? := by
    unfold bareSteps at hn
    split at hn
    · simpa using hn
    · exact hn
  obtain ⟨s, hs, hstep⟩ := List.mem_filterMap.mp hmem
  unfold stepOf? at hstep
  split at hstep
  · simp at hstep
  · exact isName_of_componentOf? (no_slash_of_mem_segments hs) hstep

theorem areProper_steps (p : Path) : AreProper p.steps := by
  intro n hn
  rw [steps_eq, List.mem_append] at hn
  rcases hn with hn | hn
  · exact areProper_bareSteps p n hn
  · split at hn <;> simp at hn

theorem areProper_components (p : Path) : AreProper p.components := by
  have hfilter : ∀ (cs : List Char) (ss : List (List Char)), (∀ s ∈ ss, s ∈ segments cs) →
      ∀ n, .name n ∈ ss.filterMap componentOf? → IsName n := by
    intro cs ss hss n hn
    obtain ⟨s, hs, hname⟩ := List.mem_filterMap.mp hn
    exact isName_of_componentOf? (no_slash_of_mem_segments (hss s hs)) hname
  intro n hn
  unfold components at hn
  split at hn
  · next cs _ => exact hfilter cs (segments cs) (fun s hs => hs) n (by simpa using hn)
  · next cs _ =>
      split at hn
      · next ss hss =>
          refine hfilter p.text.toList ss (fun s hs => ?_) n (by simpa using hn)
          rw [hss]
          exact List.mem_cons_of_mem _ hs
      · exact hfilter _ _ (fun s hs => hs) n hn

/-- A path without components is empty. -/
theorem bareSteps_of_components_eq_nil {p : Path} (h : p.components = []) : p.bareSteps = [] := by
  have hempty : p.text.toList = [] := by
    unfold components at h
    split at h
    · simp at h
    · next hslash =>
        cases hcs : p.text.toList with
        | nil => rfl
        | cons c cs =>
            have hc : c ≠ '/' := by
              rintro rfl
              exact hslash cs hcs
            obtain ⟨s, ss, hsegments⟩ : ∃ s ss, segments (c :: cs) = (c :: s) :: ss := by
              cases hcs' : segments cs with
              | nil => exact absurd hcs' (segments_ne_nil cs)
              | cons s ss =>
                  refine ⟨s, ss, ?_⟩
                  rw [segments, hcs']
                  simpa using hc
            rw [hcs, hsegments] at h
            split at h
            · simp at h
            · next hdot =>
                have hnone : componentOf? (c :: s) = none :=
                  List.filterMap_eq_nil_iff.mp h _ (by simp)
                unfold componentOf? at hnone
                split at hnone
                · next heq => simp at heq
                · next heq => exact absurd (by rw [heq]) (hdot ss)
                · simp at hnone
                · simp at hnone
  simp [bareSteps, isAbsolute, hempty, segments, stepOf?, componentOf?]

/-! ## Joining a name -/

theorem stepOf?_of_isName {n : String} (hn : IsName n) : stepOf? n.toList = some (.name n) := by
  have hdot : n.toList ≠ ['.'] := fun h => hn.2.1 (String.toList_inj.mp (by simpa using h))
  rw [stepOf?, if_neg hdot, componentOf?_of_isName hn]

/-- The text of a joined path: the path's own, a slash unless it is empty or ends in one, and the
name. -/
theorem join_text {p : Path} {n : String} (hn : IsName n) :
    (p.text = "" ∧ (p.join ⟨n⟩).text = n) ∨
      (∃ q, p.text.toList = q ++ ['/'] ∧
        (p.join ⟨n⟩).text.toList = q ++ '/' :: n.toList) ∨
      (p.text ≠ "" ∧ p.text.toList.getLast? ≠ some '/' ∧
        (p.join ⟨n⟩).text.toList = p.text.toList ++ '/' :: n.toList) := by
  have habs : (Path.mk n).isAbsolute = false := by
    have hslash := hn.2.2.2
    unfold isAbsolute
    cases hcs : n.toList with
    | nil => simp
    | cons c cs =>
        simp only [hcs, List.mem_cons, not_or] at hslash
        simpa using fun h => hslash.1 h.symm
  unfold join
  simp only [habs, Bool.false_eq_true, if_false]
  cases hlast : p.text.toList.getLast? with
  | none =>
      have hempty : p.text = "" := String.toList_inj.mp (by simpa using hlast)
      exact .inl ⟨hempty, by simp [hempty]⟩
  | some c =>
      obtain ⟨q, hq⟩ := List.getLast?_eq_some_iff.mp hlast
      by_cases hc : c = '/'
      · subst hc
        exact .inr (.inl ⟨q, hq, by simp [hq]⟩)
      · refine .inr (.inr ⟨?_, by simpa using hc, by simp [hc]⟩)
        rintro hempty
        simp [hempty] at hlast

theorem getLast?_join {p : Path} {n : String} (hn : IsName n) :
    (p.join ⟨n⟩).text.toList.getLast? ≠ some '/' := by
  obtain ⟨q, c, hq⟩ : ∃ q c, n.toList = q ++ [c] := by
    have hne : n.toList ≠ [] := fun h => hn.1 (String.toList_inj.mp (by simpa using h))
    exact ⟨_, _, (List.dropLast_append_getLast hne).symm⟩
  have hc : c ≠ '/' := by
    rintro rfl
    exact hn.2.2.2 (by simp [hq])
  have hlast : ∀ u, (u ++ '/' :: n.toList).getLast? = some c := by
    intro u
    rw [hq, ← List.cons_append, ← List.append_assoc, List.getLast?_concat]
  rcases join_text (p := p) hn with ⟨-, h⟩ | ⟨u, -, h⟩ | ⟨-, -, h⟩
  · rw [h, hq]
    simpa using hc
  · rw [h, hlast]
    simpa using hc
  · rw [h, hlast]
    simpa using hc

theorem bareSteps_join {p : Path} {n : String} (hn : IsName n) :
    (p.join ⟨n⟩).bareSteps = p.bareSteps ++ [.name n] := by
  have hname : (segments n.toList).filterMap stepOf? = [.name n] := by
    rw [segments_of_no_slash hn.2.2.2]
    simp [stepOf?_of_isName hn]
  unfold bareSteps isAbsolute
  rcases join_text (p := p) hn with ⟨hempty, h⟩ | ⟨q, hq, h⟩ | ⟨hne, -, h⟩
  · have hhead : n.toList.head? ≠ some '/' := by
      intro hhead
      exact hn.2.2.2 (List.mem_of_mem_head? hhead)
    rw [h, hname, hempty]
    simp [hhead, segments, stepOf?, componentOf?]
  · have hhead : (q ++ '/' :: n.toList).head? = (q ++ ['/']).head? := by
      cases q <;> rfl
    rw [h, hq, hhead, segments_append_slash, segments_append_slash]
    simp only [List.filterMap_append, hname]
    split <;> simp [segments, stepOf?, componentOf?]
  · have hne : p.text.toList ≠ [] := fun h => hne (String.toList_inj.mp (by simpa using h))
    have hhead : (p.text.toList ++ '/' :: n.toList).head? = p.text.toList.head? := by
      obtain ⟨c, cs, hcs⟩ := List.exists_cons_of_ne_nil hne
      rw [hcs]
      rfl
    rw [h, hhead, segments_append_slash]
    simp only [List.filterMap_append, hname]
    split <;> simp

theorem steps_join {p : Path} {n : String} (hn : IsName n) :
    (p.join ⟨n⟩).steps = p.bareSteps ++ [.name n] := by
  rw [steps_eq, bareSteps_join hn, if_neg (getLast?_join hn), List.append_nil]

/-- The components of a path, given the segments of its text; a relative path keeps a dot at its
start. -/
def leadingDot : List (List Char) → List Component
  | ['.'] :: ss => .here :: ss.filterMap componentOf?
  | ss => ss.filterMap componentOf?

theorem leadingDot_append {ss ss' : List (List Char)} (h : ss ≠ []) :
    leadingDot (ss ++ ss') = leadingDot ss ++ ss'.filterMap componentOf? := by
  obtain ⟨s, ss, rfl⟩ := List.exists_cons_of_ne_nil h
  rw [List.cons_append]
  unfold leadingDot
  split
  · next heq =>
      cases heq
      simp
  · next hdot =>
      split
      · next heq =>
          cases heq
          exact absurd rfl (hdot _)
      · rw [← List.cons_append, List.filterMap_append]

theorem components_of_root {p : Path} {cs : List Char} (h : p.text.toList = '/' :: cs) :
    p.components = .root :: (segments cs).filterMap componentOf? := by
  unfold components
  rw [h]
  rfl

theorem components_of_relative {p : Path} (h : p.text.toList.head? ≠ some '/') :
    p.components = leadingDot (segments p.text.toList) := by
  unfold components
  split
  · next hroot => simp [hroot] at h
  · rfl

theorem components_join {p : Path} {n : String} (hn : IsName n) :
    (p.join ⟨n⟩).components = p.components ++ [.name n] := by
  have hsegment : (segments n.toList).filterMap componentOf? = [.name n] := by
    rw [segments_of_no_slash hn.2.2.2]
    simp [componentOf?_of_isName hn]
  have hblank : (segments []).filterMap componentOf? = [] := rfl
  rcases join_text (p := p) hn with ⟨hempty, h⟩ | ⟨q, hq, h⟩ | ⟨hne, -, h⟩
  · have hhead : (p.join ⟨n⟩).text.toList.head? ≠ some '/' := by
      rw [h]
      exact fun hhead => hn.2.2.2 (List.mem_of_mem_head? hhead)
    have hdot : leadingDot (segments n.toList) = (segments n.toList).filterMap componentOf? := by
      rw [segments_of_no_slash hn.2.2.2]
      unfold leadingDot
      split
      · next heq =>
          have hdot : n.toList = ['.'] := by simpa using (List.cons.inj heq).1
          exact absurd (String.toList_inj.mp (by simpa using hdot)) hn.2.1
      · rfl
    rw [components_of_relative hhead, components_of_relative (by simp [hempty]), h, hempty,
      hdot, hsegment]
    rfl
  · cases q with
    | nil => rw [components_of_root h, components_of_root hq, hsegment, hblank]; rfl
    | cons c q =>
        by_cases hc : c = '/'
        · subst hc
          rw [List.cons_append] at h hq
          rw [components_of_root h, components_of_root hq, segments_append_slash,
            segments_append_slash, List.filterMap_append, List.filterMap_append, hsegment, hblank]
          simp
        · have hhead : ∀ cs : List Char, (c :: q ++ '/' :: cs).head? ≠ some '/' := by
            simpa using hc
          rw [components_of_relative (h ▸ hhead n.toList),
            components_of_relative (hq ▸ hhead []), h, hq,
            segments_append_slash, segments_append_slash, leadingDot_append (segments_ne_nil _),
            leadingDot_append (segments_ne_nil _), hsegment, hblank, List.append_nil]
  · cases hp : p.text.toList with
    | nil => exact absurd (String.toList_inj.mp (by simpa using hp)) hne
    | cons c q =>
        rw [hp] at h
        by_cases hc : c = '/'
        · subst hc
          rw [List.cons_append] at h
          rw [components_of_root h, components_of_root hp, segments_append_slash,
            List.filterMap_append, hsegment]
          rfl
        · have hhead : ∀ cs : List Char, (c :: cs).head? ≠ some '/' := by simpa using hc
          rw [components_of_relative (h ▸ hhead _),
            components_of_relative (hp ▸ hhead _), h, hp,
            segments_append_slash, leadingDot_append (segments_ne_nil _), hsegment]

/-- A joined path is spelled by a part that goes by the path alone, and the name. -/
theorem exists_join_base (p : Path) :
    ∃ base, p.text.toList <+: base ∧ ∀ n, IsName n →
      (p.join ⟨n⟩).text.toList = base ++ n.toList := by
  by_cases hempty : p.text = ""
  · refine ⟨[], by simp [hempty], fun n hn => ?_⟩
    rcases join_text (p := p) hn with ⟨-, h⟩ | ⟨q, hq, -⟩ | ⟨hne, -, -⟩
    · simp [h]
    · simp [hempty] at hq
    · exact absurd hempty hne
  · by_cases hslash : p.text.toList.getLast? = some '/'
    · refine ⟨p.text.toList, List.prefix_rfl, fun n hn => ?_⟩
      rcases join_text (p := p) hn with ⟨h, -⟩ | ⟨q, hq, h⟩ | ⟨-, hno, -⟩
      · exact absurd h hempty
      · simp [hq, h]
      · exact absurd hslash hno
    · refine ⟨p.text.toList ++ ['/'], List.prefix_append _ _, fun n hn => ?_⟩
      rcases join_text (p := p) hn with ⟨h, -⟩ | ⟨q, hq, -⟩ | ⟨-, -, h⟩
      · exact absurd h hempty
      · simp [hq] at hslash
      · simp [h]

/-! ## Names in a row -/

theorem text_ofComponents (names : List String) :
    (ofComponents (names.map .name)).text = "/".intercalate names := by
  cases names with
  | nil => rfl
  | cons n ns => simp [ofComponents, Component.text, Function.comp_def]

/-- Texts with slashes between them are taken apart into these texts again. -/
theorem segments_intercalate {t : String} {ts : List String}
    (hts : ∀ u ∈ t :: ts, '/' ∉ u.toList) :
    segments ("/".intercalate (t :: ts)).toList = (t :: ts).map String.toList := by
  induction ts generalizing t with
  | nil => simpa using segments_of_no_slash (hts t List.mem_cons_self)
  | cons u ts ih =>
      have hfirst := segments_of_no_slash (hts t List.mem_cons_self)
      have hrest := ih fun v hv => hts v (List.mem_cons_of_mem _ hv)
      have hslash : "/".toList = ['/'] := rfl
      rw [String.intercalate_cons_cons, String.toList_append, String.toList_append, hslash,
        List.append_assoc, List.singleton_append, segments_append_slash, hfirst, hrest]
      rfl

theorem segments_ofComponents {n : String} {ns : List String}
    (hnames : ∀ n' ∈ n :: ns, IsName n') :
    segments (ofComponents ((n :: ns).map .name)).text.toList = (n :: ns).map String.toList := by
  rw [text_ofComponents]
  exact segments_intercalate fun m hm => (hnames m hm).2.2.2

/-- Names are read off what they spell. -/
theorem ofComponents_inj {names names' : List String} (hnames : ∀ n ∈ names, IsName n)
    (hnames' : ∀ n ∈ names', IsName n) (hne : names ≠ []) (hne' : names' ≠ [])
    (h : ofComponents (names.map .name) = ofComponents (names'.map .name)) : names = names' := by
  obtain ⟨n, ns, rfl⟩ := List.exists_cons_of_ne_nil hne
  obtain ⟨n', ns', rfl⟩ := List.exists_cons_of_ne_nil hne'
  have hsegments := segments_ofComponents hnames
  rw [h, segments_ofComponents hnames'] at hsegments
  exact (List.map_injective_iff.mpr fun _ _ => String.toList_inj.mp) hsegments.symm

theorem ofComponents_ne_empty {names : List String} (hnames : ∀ n ∈ names, IsName n)
    (hne : names ≠ []) : (ofComponents (names.map .name)).text ≠ "" := by
  obtain ⟨n, ns, rfl⟩ := List.exists_cons_of_ne_nil hne
  intro hempty
  have hsegments := segments_ofComponents hnames
  rw [hempty] at hsegments
  have hblank : segments "".toList = [[]] := rfl
  have hnil := (List.cons.inj (hblank.symm.trans hsegments)).1
  exact (hnames n List.mem_cons_self).1 (String.toList_inj.mp hnil.symm)

end Rewrap.Path
