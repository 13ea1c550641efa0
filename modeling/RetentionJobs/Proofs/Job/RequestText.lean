import RetentionJobs.Job.Decode
import RetentionJobs.Job.Encode
import RetentionJobs.Proofs.Json.Records
import RetentionJobs.Proofs.Json.Rendering
/-! Requested jobs and their JSON texts. Every text that carries the parts of a request is read as
that request, and a text in which a known key comes twice is read as none. -/
namespace RetentionJobs.Job
open RetentionJobs.Text RetentionJobs.Json

/-! ### The texts of a request -/

/-- A text that may be left out when it is empty. -/
def textSlot {α : Type} (key : String) (get : α → String) : Slot α where
  key
  carries a := IsText (get a)
  optional a := get a = ""

/-- A part that may be null, and may be left out then. -/
def nullableSlot {α β : Type} (key : String) (get : α → Option β) (P : β → List Char → Prop) :
    Slot α where
  key
  carries a := IsNullable P (get a)
  optional a := get a = none

/-- A part that may not be left out. -/
def neededSlot {α β : Type} (key : String) (get : α → β) (P : β → List Char → Prop) : Slot α where
  key
  carries a := P (get a)
  optional _ := False

/-- A whole number in plain decimal. -/
def IsDecimal (n : Int) (cs : List Char) : Prop := cs = decimal n

def filterSlots : List (Slot Filter) :=
  [neededSlot "column" (·.column) IsText, neededSlot "days" (·.days) IsDecimal]

def scheduleSlots : List (Slot Cron.Schedule) :=
  [nullableSlot "second" (·.second) IsText, nullableSlot "minute" (·.minute) IsText,
   nullableSlot "hour" (·.hour) IsText, nullableSlot "dayOfMonth" (·.dayOfMonth) IsText,
   nullableSlot "month" (·.month) IsText, nullableSlot "dayOfWeek" (·.dayOfWeek) IsText]

def requestSlots : List (Slot Request) :=
  [textSlot "jobName" (·.jobName), nullableSlot "cronExpression" (·.cronExpression) IsText,
   nullableSlot "schedule" (·.schedule) (IsRecord scheduleSlots),
   textSlot "databaseName" (·.databaseName), textSlot "schema" (·.schema),
   textSlot "table" (·.table), nullableSlot "limit" (·.limit) IsDecimal,
   nullableSlot "filters" (·.filters) (IsListOf (IsRecord filterSlots))]

namespace Request

/-- The texts of a request, with gaps around it. -/
def IsTextOf (r : Request) (text : String) : Prop :=
  ∃ p : Padded, text.toList = p.write ∧ IsRecord requestSlots r p.text

/-- The limit and the days are signed numbers of 64 bits. -/
def FitsWord (r : Request) : Prop :=
  (∀ n ∈ r.limit, InWord n) ∧ ∀ filters ∈ r.filters, ∀ f ∈ filters, InWord f.days

/-- The texts of objects with these members, with gaps around them. -/
def IsObjectText (ms : List Named) (text : String) : Prop :=
  ∃ p : Padded, text.toList = p.write ∧ IsObjectOf ms p.text ∧ ∀ m ∈ ms, IsValue m.value.text

/-- A known key comes twice in a request, in its schedule, or in one of its filters. -/
inductive RepeatsKey (ms : List Named) : Prop
  | request (h : Repeats requestSlots ms)
  | schedule {m : Named} {inner : List Named} (hm : m ∈ ms) (hname : m.name = "schedule")
    (hobject : IsObjectOf inner m.value.text) (hvalues : ∀ m' ∈ inner, IsValue m'.value.text)
    (h : Repeats scheduleSlots inner)
  | filter {m : Named} {items : List Padded} {item : Padded} {inner : List Named} (hm : m ∈ ms)
    (hname : m.name = "filters") (harray : IsArray items m.value.text)
    (hitems : ∀ item ∈ items, IsValue item.text) (hitem : item ∈ items)
    (hobject : IsObjectOf inner item.text) (hvalues : ∀ m' ∈ inner, IsValue m'.value.text)
    (h : Repeats filterSlots inner)

end Request

/-! ### Fields -/

/-- A part is held when its name has been read. -/
def held {α : Type} (key : String) (names : List String) (a : α) : Option α :=
  if key ∈ names then some a else none

section
variable {σ α β : Type} {key : String} {names : List String} {b : β}

theorem join_held {o : Option β} (h : key ∉ names → o = none) : (held key names o).join = o := by
  unfold held
  split_ifs with hmem
  · rfl
  · exact (h hmem).symm

theorem getD_held {d : β} (h : key ∉ names → b = d) : (held key names b).getD d = b := by
  unfold held
  split_ifs with hmem
  · rfl
  · exact (h hmem).symm

variable {get : σ → Option β} {set : σ → β → σ} {r : Reader β}

theorem field_read_eq_ok_iff {s s' : σ} {cs rest : List Char} :
    (Decode.field key get set r).read s cs = .ok (s', rest) ↔
      ∃ b, r cs = .ok (b, rest) ∧ set s b = s' := by
  cases hr : r cs with
  | error e => simp [Decode.field, hr, Except.map]
  | ok y =>
    obtain ⟨b, rest'⟩ := y
    simp [Decode.field, hr, Except.map, and_comm]

/-- A field tracks its part: it holds it from its name on, and its reader reads it. -/
theorem tracks_field {slot : Slot α} {a : α} {state : List String → σ} (b : β)
    (hkey : slot.key = key) (hget : ∀ names, get (state names) = held key names b)
    (hset : ∀ names, set (state names) b = state (key :: names))
    (hreads : ∀ cs, slot.carries a cs → ReadsAs r b cs) :
    slot.key = (Decode.field key get set r).key ∧ ∀ names,
      (Decode.field key get set r).seen (state names) =
        decide ((Decode.field key get set r).key ∈ names) ∧
      ∀ cs, slot.carries a cs → ReadsAs ((Decode.field key get set r).read (state names))
        (state ((Decode.field key get set r).key :: names)) cs := by
  refine ⟨hkey, fun names => ⟨?_, fun cs hcs => ⟨(hreads cs hcs).starts, ?_⟩⟩⟩
  · have hseen : (Decode.field key get set r).seen (state names) = (get (state names)).isSome := rfl
    rw [hseen, hget, held]
    split_ifs with hmem <;> simp [Decode.field, hmem]
  · intro gap rest hgap hrest
    rw [field_read_eq_ok_iff]
    exact ⟨b, (hreads cs hcs).read gap rest hgap hrest, hset names⟩

end

/-! ### Filters -/

theorem readsAs_decimal {n : Int} {cs : List Char} (h : InWord n) (hcs : IsDecimal n cs) :
    ReadsAs integer n cs := by
  obtain rfl : cs = decimal n := hcs
  exact readsAs_integer h

def filterState (f : Filter) (names : List String) : Decode.FilterParts where
  column := held "column" names f.column
  days := held "days" names f.days

theorem tracks_filter {f : Filter} (h : InWord f.days) :
    Tracks filterSlots Decode.filterFields f (filterState f) where
  parts :=
    .cons (tracks_field f.column rfl (fun _ => rfl) (fun _ => by simp [filterState, held])
      fun _ => readsAs_text) <|
    .cons (tracks_field f.days rfl (fun _ => rfl) (fun _ => by simp [filterState, held])
      fun _ => readsAs_decimal h) .nil
  other name hname names := by
    simp only [filterSlots, neededSlot, List.map_cons, List.map_nil, List.mem_cons, not_or] at hname
    simp [filterState, held, Ne.symm hname.1, Ne.symm hname.2.1]

theorem readsAs_filter {f : Filter} (h : InWord f.days) {cs : List Char}
    (hcs : IsRecord filterSlots f cs) : ReadsAs Decode.filter f cs := by
  apply (tracks_filter h).readsAs (by decide) _ hcs
  intro names hall
  obtain ⟨hcolumn, hdays⟩ : "column" ∈ names ∧ "days" ∈ names := by
    simpa [filterSlots, neededSlot] using hall
  simp [filterState, held, hcolumn, hdays]

/-! ### Schedules -/

def scheduleState (s : Cron.Schedule) (names : List String) : Decode.ScheduleParts where
  second := held "second" names s.second
  minute := held "minute" names s.minute
  hour := held "hour" names s.hour
  dayOfMonth := held "dayOfMonth" names s.dayOfMonth
  month := held "month" names s.month
  dayOfWeek := held "dayOfWeek" names s.dayOfWeek

theorem not_null_of_isText {s : String} {cs : List Char} (h : IsText s cs) : 'n' ∉ cs.head? := by
  obtain ⟨body, -, rfl⟩ := h
  simp

theorem readsAs_nullableText {o : Option String} {cs : List Char} (h : IsNullable IsText o cs) :
    ReadsAs (nullable text) o cs :=
  readsAs_nullable h fun _ _ hs => ⟨readsAs_text hs, not_null_of_isText hs⟩

theorem tracks_schedule (s : Cron.Schedule) :
    Tracks scheduleSlots Decode.scheduleFields s (scheduleState s) where
  parts :=
    .cons (tracks_field s.second rfl (fun _ => rfl) (fun _ => by simp [scheduleState, held])
      fun _ => readsAs_nullableText) <|
    .cons (tracks_field s.minute rfl (fun _ => rfl) (fun _ => by simp [scheduleState, held])
      fun _ => readsAs_nullableText) <|
    .cons (tracks_field s.hour rfl (fun _ => rfl) (fun _ => by simp [scheduleState, held])
      fun _ => readsAs_nullableText) <|
    .cons (tracks_field s.dayOfMonth rfl (fun _ => rfl) (fun _ => by simp [scheduleState, held])
      fun _ => readsAs_nullableText) <|
    .cons (tracks_field s.month rfl (fun _ => rfl) (fun _ => by simp [scheduleState, held])
      fun _ => readsAs_nullableText) <|
    .cons (tracks_field s.dayOfWeek rfl (fun _ => rfl) (fun _ => by simp [scheduleState, held])
      fun _ => readsAs_nullableText) .nil
  other name hname names := by
    simp only [scheduleSlots, nullableSlot, List.map_cons, List.map_nil, List.mem_cons,
      not_or] at hname
    obtain ⟨hsecond, hminute, hhour, hday, hmonth, hweekday, -⟩ := hname
    simp [scheduleState, held, Ne.symm hsecond, Ne.symm hminute, Ne.symm hhour, Ne.symm hday,
      Ne.symm hmonth, Ne.symm hweekday]

theorem readsAs_schedule {s : Cron.Schedule} {cs : List Char} (hcs : IsRecord scheduleSlots s cs) :
    ReadsAs Decode.schedule s cs := by
  apply (tracks_schedule s).readsAs (by decide) _ hcs
  intro names hall
  simp only [scheduleSlots, nullableSlot, List.forall_mem_cons] at hall
  obtain ⟨hsecond, hminute, hhour, hday, hmonth, hweekday, -⟩ := hall
  simp only [scheduleState, join_held hsecond, join_held hminute, join_held hhour, join_held hday,
    join_held hmonth, join_held hweekday]

/-! ### Requests -/

def requestState (r : Request) (names : List String) : Decode.RequestParts where
  jobName := held "jobName" names r.jobName
  cronExpression := held "cronExpression" names r.cronExpression
  schedule := held "schedule" names r.schedule
  databaseName := held "databaseName" names r.databaseName
  schema := held "schema" names r.schema
  table := held "table" names r.table
  limit := held "limit" names r.limit
  filters := held "filters" names r.filters

theorem not_null_of_encloses {opening closing : Char} {parts : List (List Char)} {cs : List Char}
    (h : Encloses opening closing parts cs) (hopening : opening ≠ 'n') : 'n' ∉ cs.head? := by
  obtain ⟨after, rfl⟩ := h.cases
  simpa using hopening

theorem not_null_of_isDecimal {n : Int} {cs : List Char} (h : IsDecimal n cs) :
    'n' ∉ cs.head? := by
  obtain rfl : cs = decimal n := h
  exact fun hmem => not_mem_decimal (by decide) (by decide) (List.mem_of_mem_head? hmem)

section
variable {r : Request} (h : r.FitsWord)
include h

theorem readsAs_limit {cs : List Char} (hcs : IsNullable IsDecimal r.limit cs) :
    ReadsAs (nullable integer) r.limit cs :=
  readsAs_nullable hcs fun n hn hs => ⟨readsAs_decimal (h.1 n hn) hs, not_null_of_isDecimal hs⟩

theorem readsAs_filters {cs : List Char}
    (hcs : IsNullable (IsListOf (IsRecord filterSlots)) r.filters cs) :
    ReadsAs (nullable (list Decode.filter)) r.filters cs := by
  apply readsAs_nullable hcs
  intro filters hfilters hlist
  constructor
  · exact readsAs_list hlist fun f hf _ => readsAs_filter (h.2 filters hfilters f hf)
  · obtain ⟨items, harray, -⟩ := hlist
    exact not_null_of_encloses harray (by decide)

omit h in
theorem readsAs_nullableSchedule {o : Option Cron.Schedule} {cs : List Char}
    (hcs : IsNullable (IsRecord scheduleSlots) o cs) :
    ReadsAs (nullable Decode.schedule) o cs := by
  apply readsAs_nullable hcs
  intro s _ hs
  refine ⟨readsAs_schedule hs, ?_⟩
  obtain ⟨ms, hobject, -⟩ := hs
  exact not_null_of_encloses hobject (by decide)

theorem tracks_request : Tracks requestSlots Decode.requestFields r (requestState r) where
  parts :=
    .cons (tracks_field r.jobName rfl (fun _ => rfl) (fun _ => by simp [requestState, held])
      fun _ => readsAs_text) <|
    .cons (tracks_field r.cronExpression rfl (fun _ => rfl) (fun _ => by simp [requestState, held])
      fun _ => readsAs_nullableText) <|
    .cons (tracks_field r.schedule rfl (fun _ => rfl) (fun _ => by simp [requestState, held])
      fun _ => readsAs_nullableSchedule) <|
    .cons (tracks_field r.databaseName rfl (fun _ => rfl) (fun _ => by simp [requestState, held])
      fun _ => readsAs_text) <|
    .cons (tracks_field r.schema rfl (fun _ => rfl) (fun _ => by simp [requestState, held])
      fun _ => readsAs_text) <|
    .cons (tracks_field r.table rfl (fun _ => rfl) (fun _ => by simp [requestState, held])
      fun _ => readsAs_text) <|
    .cons (tracks_field r.limit rfl (fun _ => rfl) (fun _ => by simp [requestState, held])
      fun _ => readsAs_limit h) <|
    .cons (tracks_field r.filters rfl (fun _ => rfl) (fun _ => by simp [requestState, held])
      fun _ => readsAs_filters h) .nil
  other name hname names := by
    simp only [requestSlots, textSlot, nullableSlot, List.map_cons, List.map_nil, List.mem_cons,
      not_or] at hname
    obtain ⟨hjob, hcron, hschedule, hdatabase, hschema, htable, hlimit, hfilters, -⟩ := hname
    simp [requestState, held, Ne.symm hjob, Ne.symm hcron, Ne.symm hschedule, Ne.symm hdatabase,
      Ne.symm hschema, Ne.symm htable, Ne.symm hlimit, Ne.symm hfilters]

theorem readsAs_request {cs : List Char} (hcs : IsRecord requestSlots r cs) :
    ReadsAs Decode.request r cs := by
  apply (tracks_request h).readsAs (by decide) _ hcs
  intro names hall
  simp only [requestSlots, textSlot, nullableSlot, List.forall_mem_cons] at hall
  obtain ⟨hjob, hcron, hschedule, hdatabase, hschema, htable, hlimit, hfilters, -⟩ := hall
  simp only [requestState, getD_held hjob, join_held hcron, join_held hschedule,
    getD_held hdatabase, getD_held hschema, getD_held htable, join_held hlimit, join_held hfilters]

end

/-! ### Repeated keys -/

section
variable {σ α β : Type} {key : String} {get : σ → Option β} {set : σ → β → σ} {r : Reader β}

theorem settles_field {fields : List (Member σ)} (hr : Consumes r)
    (hset : ∀ s b, (get (set s b)).isSome ∧ ∀ g ∈ fields, g.seen s → g.seen (set s b)) :
    Settles fields (Decode.field key get set r) := by
  intro s cs s' rest hread
  obtain ⟨b, hb, rfl⟩ := field_read_eq_ok_iff.mp hread
  exact ⟨hr hb, hset s b⟩

theorem accepts_of_field {s : σ} {cs : List Char}
    (h : Accepts ((Decode.field key get set r).read s) cs) : Accepts r cs := by
  obtain ⟨gap, rest, ⟨s', rest'⟩, hgap, hrest, hread⟩ := h
  obtain ⟨b, hb, -⟩ := field_read_eq_ok_iff.mp hread
  exact ⟨gap, rest, _, hgap, hrest, hb⟩

theorem not_repeats {fields : List (Member σ)} {slots : List (Slot α)} {start : σ}
    {ms : List Named} (hkeys : slots.map Slot.key = fields.map Member.key)
    (honce : ∀ f ∈ fields, Once f start ms) : ¬ Repeats slots ms := by
  rintro ⟨slot, hslot, hcount⟩
  have hmem : slot.key ∈ fields.map Member.key := hkeys ▸ List.mem_map_of_mem hslot
  obtain ⟨f, hf, hkey⟩ := List.mem_map.mp hmem
  have hle := (honce f hf).1
  rw [hkey] at hle
  split_ifs at hle <;> omega

end

theorem lawful_filter : Lawful Decode.filterFields where
  nonempty := by simp [Decode.filterFields]
  nodup := by decide
  settles := by
    intro f hf
    simp only [Decode.filterFields, List.mem_cons, List.not_mem_nil, or_false] at hf
    obtain rfl | rfl := hf
    · exact settles_field consumes_text fun s b => by simp [Decode.filterFields, Decode.field]
    · exact settles_field consumes_integer fun s b => by simp [Decode.filterFields, Decode.field]

theorem lawful_schedule : Lawful Decode.scheduleFields where
  nonempty := by simp [Decode.scheduleFields]
  nodup := by decide
  settles := by
    have hr : Consumes (nullable text) := consumes_text.nullable
    intro f hf
    simp only [Decode.scheduleFields, List.mem_cons, List.not_mem_nil, or_false] at hf
    obtain rfl | rfl | rfl | rfl | rfl | rfl := hf
    all_goals exact settles_field hr fun s b => by simp [Decode.scheduleFields, Decode.field]

theorem lawful_request : Lawful Decode.requestFields where
  nonempty := by simp [Decode.requestFields]
  nodup := by decide
  settles := by
    have hschedule : Consumes Decode.schedule := lawful_schedule.record _ _
    have hfilter : Consumes Decode.filter := lawful_filter.record _ _
    have hfilters : Consumes (list Decode.filter) := hfilter.list
    intro f hf
    simp only [Decode.requestFields, List.mem_cons, List.not_mem_nil, or_false] at hf
    obtain rfl | rfl | rfl | rfl | rfl | rfl | rfl | rfl := hf
    · exact settles_field consumes_text fun s b => by simp [Decode.requestFields, Decode.field]
    · exact settles_field consumes_text.nullable fun s b => by
        simp [Decode.requestFields, Decode.field]
    · exact settles_field hschedule.nullable fun s b => by
        simp [Decode.requestFields, Decode.field]
    · exact settles_field consumes_text fun s b => by simp [Decode.requestFields, Decode.field]
    · exact settles_field consumes_text fun s b => by simp [Decode.requestFields, Decode.field]
    · exact settles_field consumes_text fun s b => by simp [Decode.requestFields, Decode.field]
    · exact settles_field consumes_integer.nullable fun s b => by
        simp [Decode.requestFields, Decode.field]
    · exact settles_field hfilters.nullable fun s b => by
        simp [Decode.requestFields, Decode.field]

/-- What is read as a record has no known key twice. -/
theorem not_repeats_of_accepts {σ α : Type} {fields : List (Member σ)} {slots : List (Slot α)}
    {start : σ} {finish : σ → Option α} {ms : List Named} {cs : List Char} (hlaw : Lawful fields)
    (hkeys : slots.map Slot.key = fields.map Member.key)
    (h : Accepts (record fields start finish) cs) (hobject : IsObjectOf ms cs)
    (hvalues : ∀ m ∈ ms, IsValue m.value.text) : ¬ Repeats slots ms :=
  not_repeats hkeys fun _ hf => hlaw.once_of_record h hobject hvalues hf

theorem not_repeatsKey_of_accepts {ms : List Named} {cs : List Char}
    (h : Accepts Decode.request cs) (hobject : IsObjectOf ms cs)
    (hvalues : ∀ m ∈ ms, IsValue m.value.text) : ¬ Request.RepeatsKey ms := by
  have honce : ∀ f ∈ Decode.requestFields, Once f {} ms := fun _ hf =>
    lawful_request.once_of_record h hobject hvalues hf
  have hrequest : ¬ Repeats requestSlots ms := not_repeats rfl honce
  simp only [Decode.requestFields, List.forall_mem_cons] at honce
  obtain ⟨-, -, hschedule, -, -, -, -, hfilters, -⟩ := honce
  intro hrepeats
  cases hrepeats with
  | request hrepeats => exact hrequest hrepeats
  | schedule hm hname hinner hvalues' hrepeats =>
    obtain ⟨s, hread⟩ := hschedule.2 _ hm hname
    have hread := (accepts_of_field hread).of_nullable (hinner.startsValue (by decide))
      (not_null_of_encloses hinner (by decide))
    exact not_repeats_of_accepts lawful_schedule rfl hread hinner hvalues' hrepeats
  | filter hm hname harray hitems hitem hinner hvalues' hrepeats =>
    have hfilter : Consumes Decode.filter := lawful_filter.record _ _
    obtain ⟨s, hread⟩ := hfilters.2 _ hm hname
    have hread := (accepts_of_field hread).of_nullable (harray.startsValue (by decide))
      (not_null_of_encloses harray (by decide))
    have hitem := Accepts.of_list hfilter hread harray hitems _ hitem
    exact not_repeats_of_accepts lawful_filter rfl hitem hinner hvalues' hrepeats

theorem accepts_of_ofJson {p : Padded} {text : String} {r : Request} (htext : text.toList = p.write)
    (h : Request.ofJson text = .ok r) : Accepts Decode.request p.text := by
  unfold Request.ofJson readAll at h
  split at h
  · cases h
  · rename_i hread
    rw [htext, ← List.append_nil p.write] at hread
    exact accepts_of_write (by simp [Closes]) hread

/-! ### What is rendered -/

theorem isNullable_orNull {β : Type} {P : β → List Char → Prop} {encode : β → Json} {o : Option β}
    (h : ∀ b ∈ o, P b (render (encode b))) : IsNullable P o (render (Encode.orNull encode o)) := by
  cases o with
  | none => rfl
  | some b => exact h b rfl

theorem isListOf_render {β : Type} {P : β → List Char → Prop} {encode : β → Json} {bs : List β}
    (h : ∀ b ∈ bs, P b (render (encode b))) : IsListOf P bs (render (.array (bs.map encode))) := by
  refine ⟨_, isArray_render (bs.map encode), ?_⟩
  rw [List.map_map, List.forall₂_map_right_iff, List.forall₂_same]
  exact h

theorem isRecord_filter (f : Filter) : IsRecord filterSlots f (render (Encode.filter f)) :=
  isRecord_render (.cons ⟨rfl, isText_quoted f.column⟩ <| .cons ⟨rfl, rfl⟩ .nil) (by decide)

theorem isNullable_text (o : Option String) :
    IsNullable IsText o (render (Encode.orNull .string o)) :=
  isNullable_orNull fun s _ => isText_quoted s

theorem isRecord_schedule (s : Cron.Schedule) :
    IsRecord scheduleSlots s (render (Encode.schedule s)) :=
  isRecord_render
    (.cons ⟨rfl, isNullable_text s.second⟩ <| .cons ⟨rfl, isNullable_text s.minute⟩ <|
      .cons ⟨rfl, isNullable_text s.hour⟩ <| .cons ⟨rfl, isNullable_text s.dayOfMonth⟩ <|
      .cons ⟨rfl, isNullable_text s.month⟩ <| .cons ⟨rfl, isNullable_text s.dayOfWeek⟩ .nil)
    (by decide)

theorem isRecord_request (r : Request) : IsRecord requestSlots r (render (Encode.request r)) :=
  isRecord_render
    (.cons ⟨rfl, isText_quoted r.jobName⟩ <| .cons ⟨rfl, isNullable_text r.cronExpression⟩ <|
      .cons ⟨rfl, isNullable_orNull fun s _ => isRecord_schedule s⟩ <|
      .cons ⟨rfl, isText_quoted r.databaseName⟩ <| .cons ⟨rfl, isText_quoted r.schema⟩ <|
      .cons ⟨rfl, isText_quoted r.table⟩ <|
      .cons ⟨rfl, isNullable_orNull fun _ _ => rfl⟩ <|
      .cons ⟨rfl, isNullable_orNull fun _ _ => isListOf_render fun f _ => isRecord_filter f⟩ .nil)
    (by decide)

theorem isTextOf_toJson (r : Request) : r.IsTextOf (.ofList r.toJson.render) :=
  ⟨bare r.toJson.render, by simp, isRecord_request r⟩

example : (Request.toJson { jobName := "purge", filters := some [⟨"SentAt", 30⟩] }).render =
    ("\x7b\"jobName\":\"purge\",\"cronExpression\":null,\"schedule\":null," ++
      "\"databaseName\":\"\",\"schema\":\"\",\"table\":\"\",\"limit\":null," ++
      "\"filters\":[\x7b\"column\":\"SentAt\",\"days\":30\x7d]\x7d").toList := by
  decide +kernel

/-! ### Requests and their texts -/

theorem ofJson_of_isTextOf {r : Request} (h : r.FitsWord) {text : String}
    (htext : r.IsTextOf text) : Request.ofJson text = .ok r := by
  obtain ⟨p, hwrite, hrecord⟩ := htext
  have hclose : Closes [] := by simp [Closes]
  have hread := (readsAs_request h hrecord).write hclose
  have hgap : skipGap p.after = [] := by
    have hskip := skipGap_append p.gap_after []
    rwa [List.append_nil] at hskip
  rw [List.append_nil, List.append_nil, ← hwrite] at hread
  rw [Request.ofJson, readAll, hread]
  simp only [hgap, if_true]

/-- Every text of a request is read as that request: its members may come in any order, in any
spelling, with gaps and among unknown members, and those with nothing in them may be left out. What
is rendered is such a text. A text in which a known key comes twice is read as no request. -/
theorem ofJson_request (r : Request) (h : r.FitsWord) :
    (∀ text, r.IsTextOf text → Request.ofJson text = .ok r) ∧
      Request.ofJson (.ofList r.toJson.render) = .ok r ∧
      ∀ ms text, Request.IsObjectText ms text → Request.RepeatsKey ms →
        ∀ r', Request.ofJson text ≠ .ok r' := by
  refine ⟨fun text => ofJson_of_isTextOf h, ofJson_of_isTextOf h (isTextOf_toJson r), ?_⟩
  rintro ms text ⟨p, hwrite, hobject, hvalues⟩ hrepeats r' hread
  exact not_repeatsKey_of_accepts (accepts_of_ofJson hwrite hread) hobject hvalues hrepeats

/-- The members of a filter in another order and with one that is unknown, and a filter in which the
days come twice. -/
theorem ofJson_request_filters :
    ({ limit := some (-5), filters := some [⟨"SentAt", 30⟩] } : Request).FitsWord ∧
    Request.ofJson (" \x7b\"limit\":-5,\"filters\":" ++
      "[\x7b\"days\":30,\"note\":[null],\"column\":\"SentAt\"\x7d]\x7d\n") =
      .ok { limit := some (-5), filters := some [⟨"SentAt", 30⟩] } ∧
    ∀ r, Request.ofJson "\x7b\"filters\":[\x7b\"days\":1,\"column\":\"a\",\"days\":2\x7d]\x7d" ≠
      .ok r := by
  have hfits : ({ limit := some (-5), filters := some [⟨"SentAt", 30⟩] } : Request).FitsWord := by
    simp [Request.FitsWord, InWord]
  obtain ⟨htext, -, hrepeats⟩ := ofJson_request _ hfits
  refine ⟨hfits, htext _ ?_, hrepeats _ _ ⟨bare (render (.object [("filters", .array [.object
    [("days", .number 1), ("column", .string "a"), ("days", .number 2)]])])), by decide +kernel,
    isObjectOf_render _, by simp [rendered, bare, isValue_render]⟩ ?_⟩
  · refine ⟨⟨[' '], render (.object [("limit", .number (-5)), ("filters", .array [.object
      [("days", .number 30), ("note", .array [.null]), ("column", .string "SentAt")]])]), ['\n'],
      by simp [IsGap, isGap], by simp [IsGap, isGap]⟩, by decide +kernel, _,
      isObjectOf_render _, ?_⟩
    have hfilter : IsRecord filterSlots ⟨"SentAt", 30⟩ (render (.object
        [("days", .number 30), ("note", .array [.null]), ("column", .string "SentAt")])) := by
      refine ⟨_, isObjectOf_render _, ?_⟩
      constructor
      · simp [filterSlots, neededSlot, rendered, bare, IsDecimal, render, isText_quoted]
      · decide
      · simp [filterSlots, neededSlot, rendered]
      · simp [rendered, bare, isValue_render]
    constructor
    · have hfilters : IsListOf (IsRecord filterSlots) [⟨"SentAt", 30⟩] (render (.array [.object
          [("days", .number 30), ("note", .array [.null]), ("column", .string "SentAt")]])) :=
        ⟨_, isArray_render _, .cons hfilter .nil⟩
      have hlimit : IsDecimal (-5) (render (.number (-5))) := rfl
      simp [requestSlots, textSlot, nullableSlot, rendered, bare, IsNullable, hlimit, hfilters]
    · decide
    · simp [requestSlots, textSlot, nullableSlot, rendered]
    · simp [rendered, bare, isValue_render]
  · exact .filter List.mem_cons_self rfl (isArray_render _) (by simp [bare, isValue_render])
      List.mem_cons_self (isObjectOf_render _) (by simp [rendered, bare, isValue_render])
      ⟨neededSlot "days" (·.days) IsDecimal, by simp [filterSlots], by decide⟩

end RetentionJobs.Job
