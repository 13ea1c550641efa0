import Mathlib.Data.List.Nodup
import RetentionJobs.Proofs.Toml.Values
/-! Documents of sections, each a header and lines that give keys their values, are read back as
tables with these keys. -/
namespace RetentionJobs.Toml
open RetentionJobs.Text

/-! ### Tables -/

namespace Table

variable {kind : TableKind} {es : Entries} {key : String}

theorem get?_of_notMem (h : key ∉ es.map Prod.fst) : (⟨kind, es⟩ : Table).get? key = none := by
  refine List.lookup_eq_none_iff.mpr fun e he => ?_
  exact bne_iff_ne.mpr fun heq => h (heq ▸ List.mem_map_of_mem he)

theorem set_of_notMem (h : key ∉ es.map Prod.fst) (v : Value) :
    (⟨kind, es⟩ : Table).set key v = ⟨kind, es ++ [(key, v)]⟩ := by
  simp only [set, get?_of_notMem h, Option.isSome_none, Bool.false_eq_true, if_false]

theorem get?_append (h : key ∉ es.map Prod.fst) (v : Value) :
    (⟨kind, es ++ [(key, v)]⟩ : Table).get? key = some v := by
  have hes : (⟨kind, es⟩ : Table).get? key = none := get?_of_notMem h
  simp only [get?] at hes ⊢
  rw [List.lookup_append, hes]
  simp

theorem set_append (h : key ∉ es.map Prod.fst) (v v' : Value) :
    (⟨kind, es ++ [(key, v)]⟩ : Table).set key v' = ⟨kind, es ++ [(key, v')]⟩ := by
  have hes : es.map (fun e => if e.1 == key then (key, v') else e) = es := by
    refine (List.map_congr_left fun e he => if_neg ?_).trans (List.map_id' es)
    exact fun heq => h (beq_iff_eq.mp heq ▸ List.mem_map_of_mem he)
  simp only [set, get?_append h, Option.isSome_some, if_true, List.map_append, hes]
  simp

theorem openTable_of_notMem (h : key ∉ es.map Prod.fst) :
    (⟨kind, es⟩ : Table).openTable [] key = some ⟨kind, es ++ [(key, .table .header [])]⟩ := by
  simp only [openTable, alter, get?_of_notMem h, set_of_notMem h]

/-- A key is added to the table that was opened last. -/
theorem alter_assign {table : String} {inner : Entries} (htable : table ∉ es.map Prod.fst)
    (hkey : key ∉ inner.map Prod.fst) (v : Value) :
    (⟨kind, es ++ [(table, .table .header inner)]⟩ : Table).alter false (·.assign [] key v) [table] =
      some ⟨kind, es ++ [(table, .table .header (inner ++ [(key, v)]))]⟩ := by
  have hinner : (⟨.header, inner⟩ : Table).assign [] key v = some ⟨.header, inner ++ [(key, v)]⟩ := by
    simp [assign, alter, get?_of_notMem hkey, set_of_notMem hkey]
  rw [alter, get?_append htable]
  simp [alter, hinner, set_append htable]

end Table

/-- The first of several new keys is put at the end. -/
theorem nodup_snoc {es : Entries} {e : String × Value} {keys : List String}
    (h : (es.map Prod.fst ++ e.1 :: keys).Nodup) :
    e.1 ∉ es.map Prod.fst ∧ ((es ++ [e]).map Prod.fst ++ keys).Nodup := by
  have hfresh := (List.nodup_cons.mp (List.nodup_middle.mp h)).1
  refine ⟨fun hmem => hfresh (List.mem_append_left _ hmem), ?_⟩
  rwa [List.map_append, List.map_singleton, List.append_assoc, List.singleton_append]

/-! ### Lines -/

/-- A key that needs no quotes. -/
def IsBare (key : String) : Prop := key ≠ "" ∧ key.toList.all isBareKey

instance (key : String) : Decidable (IsBare key) := inferInstanceAs (Decidable (_ ∧ _))

theorem IsBare.isBareKey_of_mem {key : String} (h : IsBare key) :
    ∀ c ∈ key.toList, isBareKey c :=
  List.all_eq_true.mp h.2

theorem IsBare.exists_cons {name : String} (h : IsBare name) :
    ∃ c cs, name.toList = c :: cs ∧ isBareKey c := by
  obtain ⟨c, cs, hcs⟩ := List.exists_cons_of_ne_nil (mt String.toList_eq_nil_iff.mp h.1)
  exact ⟨c, cs, hcs, h.isBareKey_of_mem c (hcs ▸ List.mem_cons_self)⟩

theorem ne_of_isBareKey {c d : Char} (h : isBareKey c) (hd : isBareKey d = false) : c ≠ d := by
  rintro rfl
  rw [h] at hd
  cases hd

theorem isSpace_of_isBareKey {c : Char} (h : isBareKey c) : isSpace c = false := by
  have hspace : c ≠ ' ' := ne_of_isBareKey h rfl
  have htab : c ≠ '\t' := ne_of_isBareKey h rfl
  simp [isSpace, hspace, htab]

theorem keyPart_append {name : String} (h : IsBare name) {c : Char} (hc : isBareKey c = false)
    (rest : List Char) : keyPart (name.toList ++ c :: rest) = some (name, c :: rest) := by
  obtain ⟨d, ds, hds, hd⟩ := h.exists_cons
  have htake : (name.toList ++ c :: rest).takeWhile isBareKey = d :: ds := by
    rw [List.takeWhile_append_of_pos h.isBareKey_of_mem, List.takeWhile_cons_of_neg (by simp [hc]),
      List.append_nil, hds]
  have hdrop : (name.toList ++ c :: rest).dropWhile isBareKey = c :: rest := by
    rw [List.dropWhile_append_of_pos h.isBareKey_of_mem, List.dropWhile_cons_of_neg (by simp [hc])]
  have hname : String.ofList (d :: ds) = name := by rw [← hds, String.ofList_toList]
  unfold keyPart
  split
  · rename_i heq
    rw [hds] at heq
    exact absurd (List.cons.inj heq).1 (ne_of_isBareKey hd rfl)
  · rename_i heq
    rw [hds] at heq
    exact absurd (List.cons.inj heq).1 (ne_of_isBareKey hd rfl)
  · simp only [htake, hdrop, hname]

/-- A bare key, and what follows it but for spaces. -/
theorem key_append {name : String} (h : IsBare name) {c : Char} {cs : List Char}
    (hc : isBareKey c = false) {d : Char} {rest : List Char} (hrest : skipSpace (c :: cs) = d :: rest)
    (hdot : d ≠ '.') : key (name.toList ++ c :: cs) = some (([], name), d :: rest) := by
  obtain ⟨e, es, hes, he⟩ := h.exists_cons
  have hspace : skipSpace (name.toList ++ c :: cs) = name.toList ++ c :: cs := by
    rw [hes, List.cons_append]
    exact skipSpace_cons (isSpace_of_isBareKey he) _
  rw [key, keyParts, hspace, keyPart_append h hc]
  simp only [Option.bind_eq_bind, Option.bind_some, hrest]
  split
  · rename_i heq
    exact absurd (List.cons.inj heq).1 hdot
  · rfl

namespace Document

/-- A line that begins with neither blanks nor a comment. -/
theorem lines_step {fuel : Nat} {d d' : Document} {c : Char} {cs rest : List Char}
    (hc : skipTrivia false (c :: cs) = some (c :: cs)) (h : d.line (c :: cs) = some (d', rest)) :
    lines (fuel + 1) d (c :: cs) = lines fuel d' rest := by
  rw [lines, hc]
  simp only [Option.bind_eq_bind, Option.bind_some, h]

theorem skipTrivia_of_isBareKey {c : Char} (h : isBareKey c) (cs : List Char) :
    skipTrivia false (c :: cs) = some (c :: cs) := by
  have hcomment : c ≠ '#' := ne_of_isBareKey h rfl
  rw [skipTrivia]
  · simp [isSpace_of_isBareKey h, hcomment]
  · exact ne_of_isBareKey h rfl
  · exact fun _ hreturn => absurd hreturn (ne_of_isBareKey h rfl)

theorem line_of_isBare {key : String} (h : IsBare key) (d : Document) (rest : List Char) :
    d.line (key.toList ++ rest) = d.keyValue (key.toList ++ rest) := by
  obtain ⟨c, cs, hcs, hc⟩ := h.exists_cons
  rw [hcs, List.cons_append, line]
  · exact fun _ heq => ne_of_isBareKey hc rfl (List.cons.inj heq).1
  · exact fun _ heq => ne_of_isBareKey hc rfl (List.cons.inj heq).1

theorem line_header {name : String} (h : IsBare name) (d : Document) (rest : List Char) :
    d.line ('[' :: (name.toList ++ rest)) =
      d.header Table.openTable [']'] (name.toList ++ rest) := by
  obtain ⟨c, cs, hcs, hc⟩ := h.exists_cons
  rw [hcs, List.cons_append, line]
  exact fun _ heq => ne_of_isBareKey hc rfl (List.cons.inj heq).1

theorem lines_break (fuel : Nat) (d : Document) (cs : List Char) :
    lines fuel d ('\n' :: cs) = lines fuel d cs := by
  cases fuel with
  | zero => rfl
  | succ fuel => rfl

end Document

/-! ### Sections -/

/-- A line that gives a bare key its value. -/
structure Line where
  key : String
  text : List Char
  value : Value
  bare : IsBare key
  reads : ReadsAs text value

namespace Line

def write (l : Line) : List Char := l.key.toList ++ ' ' :: '=' :: ' ' :: (l.text ++ ['\n'])

def entry (l : Line) : String × Value := (l.key, l.value)

variable {es inner : Entries} {table : String}

theorem line_write (l : Line) (htable : table ∉ es.map Prod.fst)
    (hkey : l.key ∉ inner.map Prod.fst) (rest : List Char) :
    Document.line ⟨⟨.header, es ++ [(table, .table .header inner)]⟩, [table]⟩ (l.write ++ rest) =
      some (⟨⟨.header, es ++ [(table, .table .header (inner ++ [l.entry]))]⟩, [table]⟩, rest) := by
  have hwrite : l.write ++ rest =
      l.key.toList ++ ' ' :: '=' :: ' ' :: (l.text ++ '\n' :: rest) := by
    simp [write]
  have hspace : skipSpace (' ' :: (l.text ++ '\n' :: rest)) = l.text ++ '\n' :: rest :=
    l.reads.skipSpace _
  have hvalue : Toml.value (l.text ++ '\n' :: rest) = some (l.value, '\n' :: rest) :=
    l.reads.read ⟨'\n', rest, rfl, .inl rfl⟩
  have hend : lineEnd ('\n' :: rest) = some rest := rfl
  rw [hwrite, Document.line_of_isBare l.bare, Document.keyValue, key_append l.bare rfl rfl (by decide)]
  simp only [Option.bind_eq_bind, Option.bind_some, hspace, hvalue,
    Table.alter_assign htable hkey, hend]
  rfl

theorem lines_write (l : Line) {d d' : Document} {rest : List Char}
    (h : d.line (l.write ++ rest) = some (d', rest)) (fuel : Nat) :
    Document.lines (fuel + 1) d (l.write ++ rest) = Document.lines fuel d' rest := by
  obtain ⟨c, cs, hcs, hc⟩ := l.bare.exists_cons
  rw [write, hcs, List.cons_append, List.cons_append] at h ⊢
  exact Document.lines_step (Document.skipTrivia_of_isBareKey hc _) h

end Line

/-- A header and the lines below it. -/
structure Section where
  name : String
  lines : List Line
  bare : IsBare name
  nodup : (lines.map Line.key).Nodup

namespace Section

def write (s : Section) : List Char :=
  '[' :: (s.name.toList ++ ']' :: '\n' :: s.lines.flatMap Line.write)

def entry (s : Section) : String × Value := (s.name, .table .header (s.lines.map Line.entry))

variable {es : Entries}

theorem line_header {name : String} (hbare : IsBare name) (hname : name ∉ es.map Prod.fst)
    (current : List String) (rest : List Char) :
    Document.line ⟨⟨.header, es⟩, current⟩ ('[' :: (name.toList ++ ']' :: '\n' :: rest)) =
      some (⟨⟨.header, es ++ [(name, .table .header [])]⟩, [name]⟩, rest) := by
  have hend : lineEnd ('\n' :: rest) = some rest := rfl
  rw [Document.line_header hbare, Document.header, key_append hbare rfl rfl (by decide)]
  simp [Table.openTable_of_notMem hname, hend]

theorem lines_keyLines {table : String} (htable : table ∉ es.map Prod.fst) (fuel : Nat)
    (ls : List Line) (inner : Entries) (hnodup : (inner.map Prod.fst ++ ls.map Line.key).Nodup)
    (rest : List Char) :
    Document.lines (fuel + ls.length) ⟨⟨.header, es ++ [(table, .table .header inner)]⟩, [table]⟩
        (ls.flatMap Line.write ++ rest) =
      Document.lines fuel
        ⟨⟨.header, es ++ [(table, .table .header (inner ++ ls.map Line.entry))]⟩, [table]⟩ rest := by
  induction ls generalizing inner with
  | nil => simp
  | cons l ls ih =>
    obtain ⟨hkey, hinner⟩ := nodup_snoc (e := l.entry) hnodup
    rw [List.flatMap_cons, List.append_assoc, List.length_cons, ← Nat.add_assoc,
      l.lines_write (l.line_write htable hkey _), ih _ hinner, List.map_cons, List.append_assoc,
      List.singleton_append]

theorem lines_write {s : Section} (hname : s.name ∉ es.map Prod.fst) (fuel : Nat)
    (current : List String) (rest : List Char) :
    Document.lines (fuel + s.lines.length + 1) ⟨⟨.header, es⟩, current⟩ (s.write ++ rest) =
      Document.lines fuel ⟨⟨.header, es ++ [s.entry]⟩, [s.name]⟩ rest := by
  have hheader := line_header s.bare hname current (s.lines.flatMap Line.write ++ rest)
  have hwrite : s.write ++ rest =
      '[' :: (s.name.toList ++ ']' :: '\n' :: (s.lines.flatMap Line.write ++ rest)) := by
    simp [write]
  rw [hwrite, Document.lines_step rfl hheader,
    lines_keyLines hname fuel s.lines [] s.nodup rest]
  rfl

end Section

/-! ### Documents -/

/-- Sections with empty lines between them. -/
def writeSections (ss : List Section) : List Char := join ['\n'] (ss.map Section.write)

theorem writeSections_singleton (s : Section) : writeSections [s] = s.write :=
  join_singleton _ _

theorem writeSections_cons_cons (s s' : Section) (ss : List Section) :
    writeSections (s :: s' :: ss) = s.write ++ '\n' :: writeSections (s' :: ss) := by
  simp [writeSections]

/-- How many lines are read. -/
def countLines (ss : List Section) : Nat := (ss.map (fun s => s.lines.length + 1)).sum

theorem lines_writeSections {ss : List Section} {es : Entries}
    (h : (es.map Prod.fst ++ ss.map Section.name).Nodup) (fuel : Nat) (current : List String) :
    (Document.lines (fuel + countLines ss + 1) ⟨⟨.header, es⟩, current⟩ (writeSections ss)).map
        (·.root.entries) = some (es ++ ss.map Section.entry) := by
  induction ss generalizing es current with
  | nil => simp [writeSections, Document.lines, skipTrivia]
  | cons s ss ih =>
    obtain ⟨hname, hes⟩ := nodup_snoc (e := s.entry) h
    have hcount : fuel + countLines (s :: ss) + 1 =
        fuel + countLines ss + 1 + s.lines.length + 1 := by
      simp only [countLines, List.map_cons, List.sum_cons]
      omega
    have hrest : Document.lines (fuel + countLines (s :: ss) + 1) ⟨⟨.header, es⟩, current⟩
        (writeSections (s :: ss)) =
          Document.lines (fuel + countLines ss + 1) ⟨⟨.header, es ++ [s.entry]⟩, [s.name]⟩
            (writeSections ss) := by
      rw [hcount]
      cases ss with
      | nil =>
        have hwrite := Section.lines_write hname (fuel + countLines [] + 1) current []
        rw [List.append_nil] at hwrite
        rw [writeSections_singleton, hwrite]
        rfl
      | cons s' ss =>
        rw [writeSections_cons_cons, Section.lines_write hname, Document.lines_break]
    rw [hrest, ih hes, List.map_cons, List.append_assoc, List.singleton_append]

theorem Section.length_lines_lt (s : Section) : s.lines.length < s.write.length := by
  have hlines : ∀ ls : List Line, ls.length ≤ (ls.flatMap Line.write).length := by
    intro ls
    induction ls with
    | nil => exact Nat.le_refl _
    | cons l ls ih =>
      simp only [List.flatMap_cons, List.length_append, List.length_cons, Line.write]
      omega
  have hs := hlines s.lines
  simp only [write, List.length_cons, List.length_append]
  omega

theorem countLines_le (ss : List Section) : countLines ss ≤ (writeSections ss).length := by
  induction ss with
  | nil => exact Nat.zero_le _
  | cons s ss ih =>
    have hs := s.length_lines_lt
    rw [countLines, List.map_cons, List.sum_cons]
    cases ss with
    | nil =>
      rw [writeSections_singleton]
      exact hs
    | cons s' ss =>
      rw [writeSections_cons_cons, List.length_append, List.length_cons]
      rw [countLines] at ih
      omega

/-- A document is read back as the tables of its sections. -/
theorem read_writeSections {ss : List Section} (h : (ss.map Section.name).Nodup) :
    read (.ofList (writeSections ss)) = some (ss.map Section.entry) := by
  have hmark : ∀ cs, writeSections ss ≠ '\ufeff' :: cs := by
    intro cs hcs
    match ss with
    | [] => cases hcs
    | [s] =>
      rw [writeSections_singleton] at hcs
      exact absurd (List.cons.inj hcs).1 (by decide)
    | s :: s' :: ss =>
      rw [writeSections_cons_cons] at hcs
      exact absurd (List.cons.inj hcs).1 (by decide)
  obtain ⟨fuel, hfuel⟩ := Nat.exists_eq_add_of_le (countLines_le ss)
  have hnodup : (([] : Entries).map Prod.fst ++ ss.map Section.name).Nodup := by simpa using h
  have hlines := lines_writeSections hnodup fuel []
  rw [Nat.add_comm fuel, ← hfuel] at hlines
  unfold read
  rw [String.toList_ofList]
  split
  · rename_i heq
    exact absurd heq (hmark _)
  · exact hlines

end RetentionJobs.Toml
