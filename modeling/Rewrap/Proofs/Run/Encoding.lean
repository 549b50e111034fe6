import Mathlib.Data.List.Nodup
import Rewrap.Proofs.Except
import Rewrap.Proofs.Json.Printing
import Rewrap.Proofs.Timestamp.Text
import Rewrap.Run.Encoding

/-! # Stored runs are read back

The text of a run is read as the run, and that of an index as the index. -/

namespace Rewrap

open Json (IsWritten Field Decoder recordFields knownFields decodeString decodeBool
    decodeList decodeMap
  decodeWritten required field)

/-! ## Records -/

theorem Json.isWritten_ofString (s : String) : (Json.ofString s).IsWritten := ⟨s.toList, rfl⟩

theorem Json.isWritten_ofFields {given : List (String × Json)}
    (h : ∀ g ∈ given, g.2.IsWritten) : (Json.ofFields given).IsWritten := by
  have hall : IsWritten.AllFields (given.map fun g => (g.1.toList.flatMap Json.escape, g.2)) := by
    induction given with
    | nil => trivial
    | cons g given ih =>
        exact ⟨⟨g.1.toList, rfl⟩, h g List.mem_cons_self,
          ih fun g' hg => h g' (List.mem_cons_of_mem _ hg)⟩
  exact hall

theorem Json.isWritten_array {items : List Json} (h : ∀ j ∈ items, j.IsWritten) :
    (Json.array items).IsWritten := by
  have hall : IsWritten.AllItems items := by
    induction items with
    | nil => trivial
    | cons j items ih =>
        exact ⟨h j List.mem_cons_self, ih fun j' hj => h j' (List.mem_cons_of_mem _ hj)⟩
  exact hall

theorem field_check_of_ok {α : Type} {name : String} {d : Decoder α} {j : Json} {a : α}
    (h : d j = .ok a) : (field name d).check j = .ok () := by
  simp [field, h, Except.map]

/-- A written field that is known and was not given before is checked. -/
theorem knownFields_cons {fields : List Field} {found : List (String × Json)} {name : String}
    {j : Json} {f : Field} (hj : j.IsWritten) (hf : fields.find? (·.name == name) = some f)
    (hfresh : found.lookup name = none) (hcheck : f.check j = .ok ()) (rest : List (Text × Json)) :
    knownFields fields found ((name.toList.flatMap Json.escape, j) :: rest) =
      knownFields fields ((name, j) :: found) rest := by
  cases j with
  | malformed => exact hj.elim
  | number written => exact hj.elim
  | null | bool | string | array | object =>
      simp only [knownFields, Json.decodeWritten_written, Except.bind_ok, hf, hfresh,
        Option.isSome_none, Bool.false_eq_true, if_false, hcheck]

/-- The known fields of an object that is written field by field. -/
theorem knownFields_written {fields : List Field} {found given : List (String × Json)}
    (hwritten : ∀ g ∈ given, g.2.IsWritten)
    (hnodup : ((given.reverse ++ found).map Prod.fst).Nodup)
    (hcheck : ∀ g ∈ given, ∃ f, fields.find? (·.name == g.1) = some f ∧
      f.check g.2 = .ok ()) :
    knownFields fields found (given.map fun (name, j) => (name.toList.flatMap Json.escape, j)) =
      .ok (given.reverse ++ found) := by
  induction given generalizing found with
  | nil => rfl
  | cons g given ih =>
      obtain ⟨f, hf, hj⟩ := hcheck g List.mem_cons_self
      rw [List.reverse_cons, List.append_assoc, List.singleton_append] at hnodup ⊢
      have hfresh : found.lookup g.1 = none := by
        rw [List.lookup_eq_none_iff]
        intro g' hg'
        rw [List.map_append, List.map_cons, List.nodup_append] at hnodup
        have hnot := (List.nodup_cons.mp hnodup.2.1).1
        have hmem : g'.1 ∈ found.map Prod.fst := List.mem_map_of_mem hg'
        have hne : g.1 ≠ g'.1 := fun heq => hnot (heq ▸ hmem)
        simpa using hne
      rw [List.map_cons, knownFields_cons (hwritten g List.mem_cons_self) hf hfresh hj]
      exact ih (fun g hg => hwritten g (List.mem_cons_of_mem _ hg)) hnodup
        fun g hg => hcheck g (List.mem_cons_of_mem _ hg)

theorem recordFields_written {expected : String} {fields : List Field}
    {given : List (String × Json)} (hwritten : ∀ g ∈ given, g.2.IsWritten)
    (hnodup : (given.map Prod.fst).Nodup)
    (hcheck : ∀ g ∈ given, ∃ f, fields.find? (·.name == g.1) = some f ∧
      f.check g.2 = .ok ()) :
    recordFields expected fields (.ofFields given) = .ok given.reverse := by
  have hreverse : ((given.reverse ++ []).map Prod.fst).Nodup := by
    rw [List.append_nil, List.map_reverse]
    exact List.nodup_reverse.mpr hnodup
  have hknown := knownFields_written hwritten hreverse hcheck
  rw [List.append_nil] at hknown
  exact hknown

/-- A written field that is not known is passed over, if what it holds is JSON. -/
theorem knownFields_unknown {fields : List Json.Field} {found : List (String × Json)}
    {name : String} {j : Json} (hj : j.IsWritten) (hf : fields.find? (·.name == name) = none)
    (rest : List (Text × Json)) :
    knownFields fields found ((name.toList.flatMap Json.escape, j) :: rest) =
      if j.isWhole then knownFields fields found rest else .error .malformed := by
  cases j with
  | malformed => exact hj.elim
  | number written => exact hj.elim
  | null | bool | string | array | object =>
      simp only [knownFields, Json.decodeWritten_written, Except.bind_ok, hf,
        Bool.false_eq_true, if_false]

theorem recordFields_unknown {expected : String} {fields : List Json.Field} {name : String}
    {j : Json} (hj : j.IsWritten) (hf : fields.find? (·.name == name) = none) :
    recordFields expected fields (.ofFields [(name, j)]) = if j.isWhole then .ok []
      else .error .malformed :=
  knownFields_unknown hj hf []

/-! ## Values -/

theorem decodeString_ofString (s : String) : decodeString (.ofString s) = .ok s :=
  Json.decodeWritten_written s

theorem Path.decode_toJson (p : Path) : Path.decode p.toJson = .ok p := by
  change (decodeWritten _).map Path.mk = _
  rw [Json.decodeWritten_written]
  rfl

theorem Timestamp.decode_toJson {t : Timestamp} (h : t.IsValid) :
    Timestamp.decode t.toJson = .ok t := by
  refine Except.bind_eq_ok.mpr ⟨t.text, Json.decodeWritten_written _, ?_⟩
  rw [Timestamp.ofText?_text h]
  rfl

theorem RunStatus.decode_toJson (s : RunStatus) : RunStatus.decode s.toJson = .ok s := by
  refine Except.bind_eq_ok.mpr ⟨s.name, Json.decodeWritten_written _, ?_⟩
  cases s <;> rfl

theorem decodeList_map {α : Type} {d : Decoder α} {f : α → Json} {as : List α}
    (h : ∀ a ∈ as, d (f a) = .ok a) : decodeList d (.array (as.map f)) = .ok as := by
  unfold decodeList
  simp only
  induction as with
  | nil => rfl
  | cons a as ih =>
      have hrest := ih fun b hb => h b (List.mem_cons_of_mem _ hb)
      rw [List.map_cons, List.mapM_cons]
      refine Except.bind_eq_ok.mpr ⟨a, h a List.mem_cons_self, ?_⟩
      exact Except.bind_eq_ok.mpr ⟨as, hrest, rfl⟩

theorem decodeMap_ofFields {α : Type} {d : Decoder α} {f : α → Json} {as : List (String × α)}
    (h : ∀ a ∈ as, d (f a.2) = .ok a.2) :
    decodeMap d (.ofFields (as.map fun (name, a) => (name, f a))) = .ok as := by
  unfold decodeMap Json.ofFields
  simp only [List.map_map]
  induction as with
  | nil => rfl
  | cons a as ih =>
      have hrest := ih fun b hb => h b (List.mem_cons_of_mem _ hb)
      rw [List.map_cons, List.mapM_cons]
      refine Except.bind_eq_ok.mpr ⟨a, ?_, Except.bind_eq_ok.mpr ⟨as, hrest, rfl⟩⟩
      refine Except.bind_eq_ok.mpr ⟨a.1, Json.decodeWritten_written a.1, ?_⟩
      exact Except.bind_eq_ok.mpr ⟨a.2, h a List.mem_cons_self, rfl⟩

theorem required_of_lookup {α : Type} {d : Decoder α} {values : List (String × Json)}
    {name : String} {j : Json} {a : α} (hj : values.lookup name = some j) (ha : d j = .ok a) :
    required values name d = .ok a := by
  rw [required, hj]
  exact ha

theorem Change.decode_toJson (c : Change) : Change.decode c.toJson = .ok c := by
  have hrecord : recordFields "a changed file"
      [field "path" Path.decode, field "hash_before" decodeString,
      field "hash_after" decodeString, field "backup" Path.decode] c.toJson =
        .ok [("backup", c.backup.toJson), ("hash_after", .ofString c.hashAfter),
          ("hash_before", .ofString c.hashBefore), ("path", c.path.toJson)] := by
    refine recordFields_written ?_ (by simp) ?_
    · simp [Path.toJson, Json.isWritten_ofString]
    · intro g hg
      simp only [List.mem_cons, List.not_mem_nil, or_false] at hg
      rcases hg with rfl | rfl | rfl | rfl
      · exact ⟨_, rfl, field_check_of_ok (Path.decode_toJson _)⟩
      · exact ⟨_, rfl, field_check_of_ok (decodeString_ofString _)⟩
      · exact ⟨_, rfl, field_check_of_ok (decodeString_ofString _)⟩
      · exact ⟨_, rfl, field_check_of_ok (Path.decode_toJson _)⟩
  unfold Change.decode
  rw [hrecord, Except.bind_ok, required_of_lookup rfl (Path.decode_toJson _), Except.bind_ok,
    required_of_lookup rfl (decodeString_ofString _), Except.bind_ok,
    required_of_lookup rfl (decodeString_ofString _), Except.bind_ok,
    required_of_lookup rfl (Path.decode_toJson _), Except.bind_ok]
  rfl

theorem Change.isWritten_toJson (c : Change) : c.toJson.IsWritten := by
  refine Json.isWritten_ofFields ?_
  simp [Path.toJson, Json.isWritten_ofString]

/-! ## Runs -/

theorem Run.isWritten_fields (r : Run) : ∀ g ∈ [("run_id", Json.ofString r.id),
    ("timestamp", r.timestamp.toJson), ("command", .ofString r.command), ("root", r.root.toJson),
    ("files_modified", .array (r.changes.map Change.toJson)), ("status", r.status.toJson),
    ("can_revert", .bool r.canRevert)], g.2.IsWritten := by
  have hchanges : (Json.array (r.changes.map Change.toJson)).IsWritten := by
    refine Json.isWritten_array fun j hj => ?_
    obtain ⟨c, -, rfl⟩ := List.mem_map.mp hj
    exact c.isWritten_toJson
  have hbool : (Json.bool r.canRevert).IsWritten := trivial
  simp [Path.toJson, Timestamp.toJson, RunStatus.toJson, Json.isWritten_ofString, hchanges, hbool]

theorem Run.isWritten_toJson (r : Run) : r.toJson.IsWritten :=
  Json.isWritten_ofFields r.isWritten_fields

theorem Run.decode_toJson {r : Run} (h : r.timestamp.IsValid) : Run.decode r.toJson = .ok r := by
  have hchanges : decodeList Change.decode (.array (r.changes.map Change.toJson)) = .ok r.changes :=
    decodeList_map fun c _ => c.decode_toJson
  have hrecord : recordFields "a run"
      [field "run_id" decodeString, field "timestamp" Timestamp.decode,
        field "command" decodeString,
        field "root" Path.decode, field "files_modified" (decodeList Change.decode),
        field "status" RunStatus.decode, field "can_revert" decodeBool] r.toJson =
        .ok [("can_revert", .bool r.canRevert), ("status", r.status.toJson),
          ("files_modified", .array (r.changes.map Change.toJson)), ("root", r.root.toJson),
          ("command", .ofString r.command), ("timestamp", r.timestamp.toJson),
          ("run_id", .ofString r.id)] := by
    refine recordFields_written r.isWritten_fields (by simp) fun g hg => ?_
    simp only [List.mem_cons, List.not_mem_nil, or_false] at hg
    rcases hg with rfl | rfl | rfl | rfl | rfl | rfl | rfl
    · exact ⟨_, rfl, field_check_of_ok (decodeString_ofString _)⟩
    · exact ⟨_, rfl, field_check_of_ok (Timestamp.decode_toJson h)⟩
    · exact ⟨_, rfl, field_check_of_ok (decodeString_ofString _)⟩
    · exact ⟨_, rfl, field_check_of_ok (Path.decode_toJson _)⟩
    · exact ⟨_, rfl, field_check_of_ok hchanges⟩
    · exact ⟨_, rfl, field_check_of_ok (RunStatus.decode_toJson _)⟩
    · exact ⟨_, rfl, field_check_of_ok rfl⟩
  unfold Run.decode
  rw [hrecord, Except.bind_ok, required_of_lookup rfl (decodeString_ofString _), Except.bind_ok,
    required_of_lookup rfl (Timestamp.decode_toJson h), Except.bind_ok,
    required_of_lookup rfl (decodeString_ofString _), Except.bind_ok,
    required_of_lookup rfl (Path.decode_toJson _), Except.bind_ok,
    required_of_lookup rfl hchanges, Except.bind_ok,
    required_of_lookup rfl (RunStatus.decode_toJson _), Except.bind_ok,
    required_of_lookup rfl (show decodeBool (.bool r.canRevert) = .ok r.canRevert from rfl),
      Except.bind_ok]
  rfl

/-- The text of a run is read back. -/
theorem Run.ofText_text {r : Run} (h : r.timestamp.IsValid) : Run.ofText r.text = .ok r := by
  unfold Run.ofText Run.text
  rw [Json.decodeText_text _ r.isWritten_toJson, Run.decode_toJson h]

/-- A run that is read has a timestamp of the calendar. -/
theorem Run.isValid_of_decode {j : Json} {r : Run} (h : Run.decode j = .ok r) :
    r.timestamp.IsValid := by
  have hdecode : ∀ {j : Json} {t : Timestamp}, Timestamp.decode j = .ok t → t.IsValid := by
    intro j t hj
    cases j with
    | string written =>
        obtain ⟨x, -, hx⟩ := Except.bind_eq_ok.mp hj
        split at hx
        · next t' ht =>
            cases hx
            exact Timestamp.isValid_of_ofText? ht
        · cases hx
    | _ => cases hj
  unfold Run.decode at h
  obtain ⟨values, -, h⟩ := Except.bind_eq_ok.mp h
  obtain ⟨id, -, h⟩ := Except.bind_eq_ok.mp h
  obtain ⟨timestamp, htimestamp, h⟩ := Except.bind_eq_ok.mp h
  obtain ⟨command, -, h⟩ := Except.bind_eq_ok.mp h
  obtain ⟨root, -, h⟩ := Except.bind_eq_ok.mp h
  obtain ⟨changes, -, h⟩ := Except.bind_eq_ok.mp h
  obtain ⟨status, -, h⟩ := Except.bind_eq_ok.mp h
  obtain ⟨canRevert, -, h⟩ := Except.bind_eq_ok.mp h
  cases h
  unfold required at htimestamp
  split at htimestamp
  · exact hdecode htimestamp
  · cases htimestamp

/-! ## Indexes -/

namespace RunIndex

/-- An index with one entry for an id, and runs with timestamps of the calendar. -/
structure IsSound (i : RunIndex) : Prop where
  nodup : (i.entries.map Prod.fst).Nodup
  valid : ∀ e ∈ i.entries, e.2.timestamp.IsValid

theorem isSound_empty : empty.IsSound := ⟨List.nodup_nil, by simp [empty]⟩

theorem IsSound.insert {i : RunIndex} (h : i.IsSound) (id : String) {r : Run}
    (hr : r.timestamp.IsValid) : (i.insert id r).IsSound := by
  refine ⟨?_, fun e he => ?_⟩
  · have hrest : ((i.entries.filter (·.1 != id)).map Prod.fst).Nodup :=
      h.nodup.sublist (List.filter_sublist.map _)
    have hfresh : id ∉ (i.entries.filter (·.1 != id)).map Prod.fst := by
      intro hmem
      obtain ⟨e, he, rfl⟩ := List.mem_map.mp hmem
      simpa using (List.mem_filter.mp he).2
    simp only [RunIndex.insert, List.map_append, List.map_cons, List.map_nil]
    exact (List.nodup_append_comm.mp (List.nodup_cons.mpr ⟨hfresh, hrest⟩))
  · rcases List.mem_append.mp he with he | he
    · exact h.valid e (List.mem_filter.mp he).1
    · obtain rfl := List.mem_singleton.mp he
      exact hr

theorem IsSound.foldl {entries : List (String × Run)}
    (hvalid : ∀ e ∈ entries, e.2.timestamp.IsValid) {i : RunIndex} (h : i.IsSound) :
    (entries.foldl (fun i e => i.insert e.1 e.2) i).IsSound := by
  induction entries generalizing i with
  | nil => exact h
  | cons e entries ih =>
      exact ih (fun e' he => hvalid e' (List.mem_cons_of_mem _ he))
        (h.insert e.1 (hvalid e List.mem_cons_self))

theorem foldl_insert {entries : List (String × Run)} {i : RunIndex}
    (h : ((i.entries ++ entries).map Prod.fst).Nodup) :
    entries.foldl (fun i e => i.insert e.1 e.2) i = ⟨i.entries ++ entries⟩ := by
  induction entries generalizing i with
  | nil => simp
  | cons e entries ih =>
      have hsame : i.entries.filter (·.1 != e.1) = i.entries := by
        refine List.filter_eq_self.mpr fun e' he' => ?_
        rw [List.map_append, List.map_cons, List.nodup_middle, List.nodup_cons] at h
        have hne : e'.1 ≠ e.1 := fun heq =>
          h.1 (List.mem_append_left _ (heq ▸ List.mem_map_of_mem he'))
        simpa using hne
      have hinsert : i.insert e.1 e.2 = ⟨i.entries ++ [e]⟩ := by
        rw [RunIndex.insert, hsame]
      rw [List.foldl_cons, hinsert, ih (by simpa using h)]
      simp

theorem isWritten_toJson (i : RunIndex) : i.toJson.IsWritten ∧
    (Json.ofFields (i.entries.map fun e => (e.1, e.2.toJson))).IsWritten := by
  have hruns : (Json.ofFields (i.entries.map fun e => (e.1, e.2.toJson))).IsWritten := by
    refine Json.isWritten_ofFields fun g hg => ?_
    obtain ⟨e, -, rfl⟩ := List.mem_map.mp hg
    exact e.2.isWritten_toJson
  refine ⟨Json.isWritten_ofFields fun g hg => ?_, hruns⟩
  obtain rfl := List.mem_singleton.mp hg
  exact hruns

theorem decode_toJson {i : RunIndex} (h : i.IsSound) : decode i.toJson = .ok i := by
  have hmap : decodeMap Run.decode (.ofFields (i.entries.map fun e => (e.1, e.2.toJson))) =
      .ok i.entries := decodeMap_ofFields fun e he => Run.decode_toJson (h.valid e he)
  have hrecord : recordFields "an index of runs" [field "runs" (decodeMap Run.decode)] i.toJson =
      .ok [("runs", .ofFields (i.entries.map fun e => (e.1, e.2.toJson)))] := by
    refine recordFields_written ?_ (by simp) ?_
    · simpa using i.isWritten_toJson.2
    · intro g hg
      obtain rfl := List.mem_singleton.mp hg
      exact ⟨_, rfl, field_check_of_ok hmap⟩
  unfold decode
  rw [hrecord, Except.bind_ok, required_of_lookup rfl hmap, Except.bind_ok]
  have hall : ofEntries i.entries = i := by
    unfold ofEntries
    rw [foldl_insert (by simpa [empty] using h.nodup)]
    rfl
  rw [hall]
  rfl

/-- The text of an index is read back. -/
theorem ofText_text {i : RunIndex} (h : i.IsSound) : ofText i.text = .ok i := by
  unfold ofText text
  rw [Json.decodeText_text _ i.isWritten_toJson.1, decode_toJson h]

/-- The text of an index is not that of a run. -/
theorem run_ofText_text (i : RunIndex) : ∃ f, Run.ofText i.text = .error f := by
  obtain ⟨hwritten, hruns⟩ := i.isWritten_toJson
  unfold Run.ofText text
  rw [Json.decodeText_text _ hwritten]
  cases hrun : Run.decode i.toJson with
  | error f => exact ⟨f, rfl⟩
  | ok r =>
      -- none of the fields of a run is there, so its id is missing
      unfold Run.decode at hrun
      obtain ⟨values, hrecord, hrun⟩ := Except.bind_eq_ok.mp hrun
      rw [toJson, recordFields_unknown hruns rfl] at hrecord
      split at hrecord
      · cases hrecord
        obtain ⟨id, hid, -⟩ := Except.bind_eq_ok.mp hrun
        cases hid
      · cases hrecord

theorem isValid_of_decodeMap {fields : List (Text × Json)} {entries : List (String × Run)}
    (h : fields.mapM (fun (key, j) => do return (← decodeWritten key, ← Run.decode j)) =
      .ok entries) :
    ∀ e ∈ entries, e.2.timestamp.IsValid := by
  induction fields generalizing entries with
  | nil =>
      cases h
      simp
  | cons f fields ih =>
      rw [List.mapM_cons] at h
      obtain ⟨e, he, h⟩ := Except.bind_eq_ok.mp h
      obtain ⟨rest, hrest, h⟩ := Except.bind_eq_ok.mp h
      cases h
      obtain ⟨key, -, he⟩ := Except.bind_eq_ok.mp he
      obtain ⟨r, hr, he⟩ := Except.bind_eq_ok.mp he
      cases he
      intro e' he'
      rcases List.mem_cons.mp he' with rfl | he'
      · exact Run.isValid_of_decode hr
      · exact ih hrest e' he'

theorem isSound_of_ofText {x : Text} {i : RunIndex} (h : ofText x = .ok i) : i.IsSound := by
  obtain ⟨j, hdecode⟩ := Json.exists_of_decodeText h
  unfold decode at hdecode
  obtain ⟨values, -, hdecode⟩ := Except.bind_eq_ok.mp hdecode
  obtain ⟨entries, hentries, hdecode⟩ := Except.bind_eq_ok.mp hdecode
  cases hdecode
  refine isSound_empty.foldl ?_
  unfold required at hentries
  split at hentries
  · next j hj =>
      cases j with
      | object fields => exact isValid_of_decodeMap hentries
      | _ => cases hentries
  · cases hentries

end RunIndex

end Rewrap
