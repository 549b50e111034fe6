import Mathlib.Data.List.Induction
import Rewrap.Path.Normal
import Rewrap.Proofs.Path.Steps

/-! # Normal forms of paths

The components of a normal form are the root or some parent steps, and then names. Every component
that is added keeps that shape, and a normal form is read back as the components it was made of. So
it is normalized to itself, and a path that is joined to another is normalized from where the normal
form of that one ends. -/

namespace Rewrap.Path

/-! ## The shape -/

/-- Parent steps and names, or, where the path is rooted, the root and names. -/
def AreNormal (rooted : Bool) (cs : List Component) : Prop :=
  ∃ (n : Nat) (names : List String),
    cs = (if rooted then [.root] else List.replicate n .up) ++ names.map .name

/-- The path has no dots, and has parent steps only where it begins with them and is relative. -/
def IsNormal (p : Path) : Prop := AreNormal p.isAbsolute p.components

theorem normalStep_here (done : List Component) : normalStep done .here = done := by
  cases done <;> rfl

theorem normalStep_name (done : List Component) (n : String) :
    normalStep done (.name n) = .name n :: done := by
  cases done <;> rfl

theorem normalStep_up_replicate (n : Nat) :
    normalStep (List.replicate n .up) .up = List.replicate (n + 1) .up := by
  cases n with
  | zero => rfl
  | succ n => simp [normalStep, List.replicate_succ]

theorem foldl_normalStep_names (names : List String) (done : List Component) :
    (names.map .name).foldl normalStep done = (names.map .name).reverse ++ done := by
  induction names generalizing done with
  | nil => rfl
  | cons n names ih => simp [normalStep_name, ih]

theorem foldl_normalStep_ups (n m : Nat) :
    (List.replicate n .up).foldl normalStep (List.replicate m .up) =
      List.replicate (m + n) .up := by
  induction n generalizing m with
  | zero => rfl
  | succ n ih =>
      rw [List.replicate_succ, List.foldl_cons, normalStep_up_replicate, ih]
      congr 1
      omega

/-- The components of a normal form are stacked one on the other. -/
theorem AreNormal.normalComponents_eq {rooted : Bool} {cs : List Component}
    (h : AreNormal rooted cs) : normalComponents cs = cs := by
  obtain ⟨n, names, rfl⟩ := h
  have hlead : (if rooted then [.root] else List.replicate n .up).foldl normalStep [] =
      (if rooted then [.root] else List.replicate n .up).reverse := by
    cases rooted with
    | true => rfl
    | false => simpa using foldl_normalStep_ups n 0
  rw [normalComponents, List.foldl_append, hlead, foldl_normalStep_names, ← List.reverse_append,
    List.reverse_reverse]

/-- A component that is added keeps the shape, unless it is a root. -/
theorem AreNormal.step {rooted : Bool} {done : List Component} {c : Component}
    (h : AreNormal rooted done.reverse) (hc : c ≠ .root) :
    AreNormal rooted (normalStep done c).reverse := by
  cases c with
  | root => exact absurd rfl hc
  | here => rwa [normalStep_here]
  | name m =>
      obtain ⟨n, names, hdone⟩ := h
      exact ⟨n, names ++ [m], by simp [normalStep_name, hdone]⟩
  | up =>
      obtain ⟨n, names, hdone⟩ := h
      have hstack := List.reverse_eq_iff.mp hdone
      induction names using List.reverseRecOn with
      | nil =>
          cases rooted with
          | true => exact ⟨0, [], by simp [hstack, normalStep]⟩
          | false =>
              have hups : done = List.replicate n .up := by simpa using hstack
              exact ⟨n + 1, [], by simp [hups, normalStep_up_replicate]⟩
      | append_singleton names m =>
          -- the last name goes with the parent step
          refine ⟨n, names, ?_⟩
          rw [hstack]
          simp [normalStep]

theorem AreNormal.foldl {rooted : Bool} {cs done : List Component}
    (h : AreNormal rooted done.reverse) (hcs : .root ∉ cs) :
    AreNormal rooted (cs.foldl normalStep done).reverse := by
  induction cs generalizing done with
  | nil => exact h
  | cons c cs ih =>
      simp only [List.mem_cons, not_or] at hcs
      exact ih (h.step (Ne.symm hcs.1)) hcs.2

theorem mem_normalStep {done : List Component} {c d : Component} (h : d ∈ normalStep done c) :
    d = c ∨ d ∈ done := by
  unfold normalStep at h
  split at h
  · exact .inr h
  · exact .inr (List.mem_cons_of_mem _ h)
  · split at h
    · exact .inr h
    · exact List.mem_cons.mp h
  · exact List.mem_cons.mp h

/-- The components of a normal form come from the path. -/
theorem mem_foldl_normalStep {cs done : List Component} {d : Component}
    (h : d ∈ cs.foldl normalStep done) : d ∈ cs ∨ d ∈ done := by
  induction cs generalizing done with
  | nil => exact .inr h
  | cons c cs ih =>
      rcases ih h with h | h
      · exact .inl (List.mem_cons_of_mem c h)
      · rcases mem_normalStep h with rfl | h
        · exact .inl List.mem_cons_self
        · exact .inr h

/-! ## Parts -/

/-- The components of a path other than the root and a dot at its start. -/
def parts (p : Path) : List Component := (segments p.text.toList).filterMap componentOf?

theorem root_not_mem_parts (p : Path) : .root ∉ p.parts := by
  intro h
  obtain ⟨s, -, hs⟩ := List.mem_filterMap.mp h
  unfold componentOf? at hs
  split at hs <;> simp at hs

theorem areProper_parts (p : Path) : AreProper p.parts := by
  intro n hn
  obtain ⟨s, hs, hname⟩ := List.mem_filterMap.mp hn
  exact isName_of_componentOf? (no_slash_of_mem_segments hs) hname

/-- A dot at the start of a path does not count for its normal form. -/
theorem foldl_components (p : Path) (done : List Component) :
    p.components.foldl normalStep done =
      p.parts.foldl normalStep (if p.isAbsolute then .root :: done else done) := by
  cases habs : p.isAbsolute with
  | true =>
      obtain ⟨cs, hcs⟩ : ∃ cs, p.text.toList = '/' :: cs :=
        List.head?_eq_some_iff.mp (by simpa [isAbsolute] using habs)
      have hroot : normalStep done .root = .root :: done := by cases done <;> rfl
      rw [components_of_root hcs, List.foldl_cons, hroot, parts, hcs]
      rfl
  | false =>
      rw [components_of_relative (by simpa [isAbsolute] using habs), parts]
      unfold leadingDot
      split
      · next ss hss =>
          rw [hss, List.foldl_cons, normalStep_here]
          rfl
      · rfl

theorem normalComponents_eq (p : Path) :
    normalComponents p.components =
      (p.parts.foldl normalStep (if p.isAbsolute then [.root] else [])).reverse := by
  rw [normalComponents, foldl_components]

theorem areNormal_normalComponents (p : Path) :
    AreNormal p.isAbsolute (normalComponents p.components) := by
  rw [normalComponents_eq]
  refine AreNormal.foldl ⟨0, [], ?_⟩ p.root_not_mem_parts
  cases p.isAbsolute <;> rfl

theorem areProper_normalComponents (p : Path) : AreProper (normalComponents p.components) := by
  intro n hn
  rw [normalComponents_eq, List.mem_reverse] at hn
  rcases mem_foldl_normalStep hn with h | h
  · exact p.areProper_parts n h
  · split at h <;> simp at h

/-! ## Reading a normal form -/

/-- A parent step, or a name that an entry can have. -/
def Component.IsPart (c : Component) : Prop := c = .up ∨ ∃ n, c = .name n ∧ IsName n

theorem Component.IsPart.componentOf?_text {c : Component} (hc : c.IsPart) :
    componentOf? c.text.toList = some c := by
  rcases hc with rfl | ⟨n, rfl, hn⟩
  · rfl
  · exact componentOf?_of_isName hn

theorem Component.IsPart.slash_not_mem {c : Component} (hc : c.IsPart) : '/' ∉ c.text.toList := by
  rcases hc with rfl | ⟨n, rfl, hn⟩
  · decide
  · exact hn.2.2.2

theorem segments_text {c : Component} {cs : List Component} (hcs : ∀ d ∈ c :: cs, d.IsPart) :
    segments ("/".intercalate ((c :: cs).map Component.text)).toList =
      (c :: cs).map fun d => d.text.toList := by
  have hslash : ∀ t ∈ (c :: cs).map Component.text, '/' ∉ t.toList := by
    intro t ht
    obtain ⟨d, hd, rfl⟩ := List.mem_map.mp ht
    exact (hcs d hd).slash_not_mem
  rw [List.map_cons] at hslash ⊢
  rw [segments_intercalate hslash, ← List.map_cons, List.map_map]
  rfl

/-- Parent steps and names are read off what they spell. -/
theorem filterMap_segments {cs : List Component} (hcs : ∀ d ∈ cs, d.IsPart) :
    (segments ("/".intercalate (cs.map Component.text)).toList).filterMap componentOf? = cs := by
  cases cs with
  | nil => rfl
  | cons c cs =>
      have hread : ∀ d ∈ c :: cs, (componentOf? ∘ fun d => d.text.toList) d =
          some d := fun d hd =>
        (hcs d hd).componentOf?_text
      rw [segments_text hcs, List.filterMap_map, List.filterMap_congr hread, List.filterMap_some]

theorem leadingDot_of_head? {ss : List (List Char)} (h : ss.head? ≠ some ['.']) :
    leadingDot ss = ss.filterMap componentOf? := by
  unfold leadingDot
  split
  · next ss => exact absurd rfl h
  · rfl

theorem text_ofComponents_of_isPart {cs : List Component} (hcs : ∀ d ∈ cs, d.IsPart) :
    (ofComponents cs).text = "/".intercalate (cs.map Component.text) := by
  cases cs with
  | nil => rfl
  | cons c cs => rcases hcs c List.mem_cons_self with rfl | ⟨n, rfl, -⟩ <;> rfl

theorem ofComponents_parts {cs : List Component} (hcs : ∀ d ∈ cs, d.IsPart) :
    (ofComponents cs).isAbsolute = false ∧ (ofComponents cs).components = cs := by
  cases cs with
  | nil => exact ⟨rfl, rfl⟩
  | cons c cs =>
      have hc := hcs c List.mem_cons_self
      have htext := text_ofComponents_of_isPart hcs
      have hsegments := segments_text hcs
      rw [← htext] at hsegments
      -- the first segment is neither empty nor a dot
      have hroot : (ofComponents (c :: cs)).text.toList.head? ≠ some '/' := by
        intro hhead
        obtain ⟨u, hu⟩ := List.head?_eq_some_iff.mp hhead
        rw [hu, segments, List.map_cons, List.cons.injEq] at hsegments
        have hread := hc.componentOf?_text
        rw [← hsegments.1] at hread
        simp [componentOf?] at hread
      have hdot : (segments (ofComponents (c :: cs)).text.toList).head? ≠ some ['.'] := by
        rw [hsegments]
        intro hhead
        have hfirst : c.text.toList = ['.'] := Option.some.inj hhead
        have hread := hc.componentOf?_text
        rw [hfirst] at hread
        simp [componentOf?] at hread
      refine ⟨by simpa [isAbsolute] using hroot, ?_⟩
      rw [components_of_relative hroot, leadingDot_of_head? hdot, htext, filterMap_segments hcs]

/-- A normal form is read off what it spells. -/
theorem AreNormal.ofComponents {rooted : Bool} {cs : List Component} (h : AreNormal rooted cs)
    (hproper : AreProper cs) :
    (ofComponents cs).isAbsolute = rooted ∧ (ofComponents cs).components = cs := by
  obtain ⟨n, names, rfl⟩ := h
  have hnames : ∀ d ∈ names.map Component.name, d.IsPart := by
    intro d hd
    obtain ⟨m, hm, rfl⟩ := List.mem_map.mp hd
    exact .inr ⟨m, rfl, hproper m (by simp [hm])⟩
  cases rooted with
  | true =>
      have htext : (Path.ofComponents ([.root] ++ names.map .name)).text.toList =
          '/' :: ("/".intercalate ((names.map Component.name).map Component.text)).toList := by
        simp [Path.ofComponents]
      rw [if_pos rfl, components_of_root htext, filterMap_segments hnames, isAbsolute, htext]
      exact ⟨rfl, rfl⟩
  | false =>
      refine ofComponents_parts fun d hd => ?_
      rcases List.mem_append.mp hd with hd | hd
      · exact .inl (List.eq_of_mem_replicate hd)
      · exact hnames d hd

theorem normalize_reads (p : Path) :
    p.normalize.isAbsolute = p.isAbsolute ∧
      p.normalize.components = normalComponents p.components :=
  p.areNormal_normalComponents.ofComponents p.areProper_normalComponents

/-! ## Joined paths -/

/-- Joining a relative path puts its parts behind those of the other, which stays absolute or
relative. -/
theorem parts_join (a : Path) {b : Path} (hb : b.isAbsolute = false) :
    (a.join b).isAbsolute = a.isAbsolute ∧ (a.join b).parts = a.parts ++ b.parts := by
  have hblank : (segments []).filterMap componentOf? = [] := rfl
  cases hlast : a.text.toList.getLast? with
  | none =>
      have hnil : a.text.toList = [] := List.getLast?_eq_none_iff.mp hlast
      have hjoin : (a.join b).text.toList = b.text.toList := by simp [join, hb, hnil]
      constructor
      · rw [isAbsolute, hjoin, ← isAbsolute, hb, isAbsolute, hnil]
        rfl
      · rw [parts, parts, parts, hjoin, hnil, hblank, List.nil_append]
  | some c =>
      obtain ⟨q, hq⟩ := List.getLast?_eq_some_iff.mp hlast
      by_cases hc : c = '/'
      · subst hc
        have hjoin : (a.join b).text.toList = q ++ '/' :: b.text.toList := by simp [join, hb, hq]
        constructor
        · rw [isAbsolute, hjoin, isAbsolute, hq]
          cases q <;> rfl
        · rw [parts, parts, parts, hjoin, hq, segments_append_slash, segments_append_slash,
            List.filterMap_append, List.filterMap_append, hblank, List.append_nil]
      · have hjoin : (a.join b).text.toList = a.text.toList ++ '/' :: b.text.toList := by
          simp [join, hb, hq, hc]
        constructor
        · rw [isAbsolute, hjoin, isAbsolute, hq]
          cases q <;> rfl
        · rw [parts, parts, parts, hjoin, segments_append_slash, List.filterMap_append]

/-- A joined path is normalized from where the normal form of the first path ends. -/
theorem foldl_components_join (a : Path) {b : Path} (hb : b.isAbsolute = false)
    (done : List Component) :
    (a.join b).components.foldl normalStep done =
      b.components.foldl normalStep (a.components.foldl normalStep done) := by
  obtain ⟨habs, hparts⟩ := a.parts_join hb
  rw [foldl_components, foldl_components b, foldl_components a, hparts, habs, List.foldl_append, hb]
  rfl

/-! ## The normal form -/

/-- The normal form of a path is normal and stays absolute or relative. It has the components of the
path where these are normal, so it is a fixed point, and it may be taken before a relative path is
joined. -/
theorem normalize_isNormal :
    (∀ p : Path, p.normalize.IsNormal ∧ p.normalize.isAbsolute = p.isAbsolute ∧
        (p.IsNormal → p.normalize.components = p.components) ∧
          p.normalize.normalize = p.normalize) ∧
      ∀ a b : Path, b.isAbsolute = false →
        (a.join b).normalize = (a.normalize.join b).normalize := by
  constructor
  · intro p
    obtain ⟨habs, hcomponents⟩ := p.normalize_reads
    have hnormal := p.areNormal_normalComponents
    refine ⟨?_, habs, fun h => ?_, ?_⟩
    · rwa [IsNormal, habs, hcomponents]
    · rw [hcomponents, AreNormal.normalComponents_eq h]
    · rw [normalize, hcomponents, hnormal.normalComponents_eq]
      rfl
  · intro a b hb
    have hcomponents := a.normalize_reads.2
    have hstack : a.normalize.components.foldl normalStep [] =
        a.components.foldl normalStep [] := by
      have h := a.areNormal_normalComponents.normalComponents_eq
      rw [hcomponents]
      exact List.reverse_injective h
    rw [normalize, normalComponents, foldl_components_join a hb, ← hstack,
      ← foldl_components_join _ hb]
    rfl

/-- A parent step takes the name before it away, and is kept where there is none. -/
theorem normalize_isNormal_parents :
    (⟨"./b/../../c/"⟩ : Path).isAbsolute = false ∧
      ((⟨"../a//."⟩ : Path).join ⟨"./b/../../c/"⟩).normalize = ⟨"../c"⟩ ∧
      ((⟨"../a//."⟩ : Path).normalize.join ⟨"./b/../../c/"⟩).normalize = ⟨"../c"⟩ := by
  have hrelative : (⟨"./b/../../c/"⟩ : Path).isAbsolute = false := by decide
  have hjoined : ((⟨"../a//."⟩ : Path).join ⟨"./b/../../c/"⟩).normalize = ⟨"../c"⟩ := by
    rfl
  exact ⟨hrelative, hjoined, (normalize_isNormal.2 _ _ hrelative).symm.trans hjoined⟩

/-- At the root a parent step leads nowhere. -/
example : (⟨"/../a/./b/.."⟩ : Path).normalize = ⟨"/a"⟩ := by rfl

end Rewrap.Path
