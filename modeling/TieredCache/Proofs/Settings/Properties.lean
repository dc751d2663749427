import Mathlib
import TieredCache.Proofs.Text
import TieredCache.Settings.Properties

/-!
# Property files

A file is accepted if every line that says something has an equals sign, and
then the last assignment to a key counts.  Which lines say something, and what,
does not depend on the blanks around them, so that what is read of a file is
read of the texts that line feeds separate in it.
-/

namespace TieredCache.Properties

variable {line : List Char} {key value : String}

/-! ## Assignments -/

def Speaks (line : List Char) : Prop :=
  Text.trim line ≠ [] ∧ (Text.trim line).head? ≠ some '#'

instance (line : List Char) : Decidable (Speaks line) :=
  inferInstanceAs (Decidable (_ ∧ _))

def Assigns (line : List Char) (key value : String) : Prop :=
  Speaks line ∧ ∃ before after, line = before ++ '=' :: after ∧ '=' ∉ before ∧
    key = String.ofList (Text.trim before) ∧
    value = String.ofList (Text.trim after)

/-- The last of `things` that says anything about the key gives it the value. -/
def LastGives {α : Type} (gives : α → String → String → Prop)
    (things : List α) (key value : String) : Prop :=
  ∃ before thing after, things = before ++ thing :: after ∧
    gives thing key value ∧
    ∀ later ∈ after, ∀ other, ¬gives later key other

theorem isIdle_iff {text : List Char} :
    isIdle text ↔ ¬(text ≠ [] ∧ text.head? ≠ some '#') := by
  cases text <;> simp [isIdle]

theorem isIdle_trim_iff : isIdle (Text.trim line) ↔ ¬Speaks line := isIdle_iff

theorem speaks_trim : Speaks (Text.trim line) ↔ Speaks line := by
  unfold Speaks
  rw [Text.trim_trim]

theorem assignment?_eq_some_iff :
    assignment? line = some (key, value) ↔
      ∃ before after, line = before ++ '=' :: after ∧ '=' ∉ before ∧
        key = String.ofList (Text.trim before) ∧
        value = String.ofList (Text.trim after) := by
  unfold assignment?
  simp only [Option.map_eq_some_iff, Prod.exists, Text.cut?_eq_some_iff,
    Prod.mk.injEq, and_assoc, eq_comm (b := key), eq_comm (b := value)]

theorem assignment?_eq_none_iff : assignment? line = none ↔ '=' ∉ line := by
  simp [assignment?, Text.cut?_eq_none_iff]

theorem exists_assignment? (h : '=' ∈ line) :
    ∃ key value, assignment? line = some (key, value) := by
  have hsome : assignment? line ≠ none := mt assignment?_eq_none_iff.1 (by simpa)
  obtain ⟨⟨key, value⟩, hvalue⟩ := Option.ne_none_iff_exists'.1 hsome
  exact ⟨key, value, hvalue⟩

theorem assignment?_trim (line : List Char) :
    assignment? (Text.trim line) = assignment? line := by
  obtain ⟨front, back, hline, hfront, hback⟩ := Text.exists_trim line
  have hmem : '=' ∈ Text.trim line ↔ '=' ∈ line := Text.mem_trim (by decide)
  by_cases hequals : '=' ∈ Text.trim line
  · obtain ⟨key, value, htrimmed⟩ := exists_assignment? hequals
    obtain ⟨before, after, hcut, hbefore, rfl, rfl⟩ :=
      assignment?_eq_some_iff.1 htrimmed
    have hnot : '=' ∉ front := fun h => absurd (hfront _ h) (by decide)
    rw [htrimmed, eq_comm, assignment?_eq_some_iff]
    refine ⟨front ++ before, after ++ back, ?_, by simp [hnot, hbefore], ?_, ?_⟩
    · simpa [hcut] using hline
    · rw [Text.trim_blank_append hfront]
    · rw [Text.trim_append_blank hback]
  · rw [assignment?_eq_none_iff.2 hequals,
      assignment?_eq_none_iff.2 (mt hmem.2 hequals)]

def assigned? (line : List Char) : Option (String × String) :=
  if Speaks line then assignment? line else none

def fault? (line : List Char) : Option (List Char) :=
  if Speaks line ∧ '=' ∉ line then some (Text.trim line) else none

theorem assigned?_eq_some_iff :
    assigned? line = some (key, value) ↔ Assigns line key value := by
  simp [assigned?, Assigns, assignment?_eq_some_iff]

theorem fault?_eq_none_iff : fault? line = none ↔ (Speaks line → '=' ∈ line) := by
  simp [fault?]

theorem assigned?_trim (line : List Char) :
    assigned? (Text.trim line) = assigned? line := by
  simp only [assigned?, speaks_trim, assignment?_trim]

theorem fault?_trim (line : List Char) :
    fault? (Text.trim line) = fault? line := by
  have hmem : '=' ∈ Text.trim line ↔ '=' ∈ line := Text.mem_trim (by decide)
  simp only [fault?, speaks_trim, hmem, Text.trim_trim]

/-! ## Many assignments -/

section Entries

variable {entries : List (String × String)}

def setAll (properties : Properties) (entries : List (String × String)) :
    Properties :=
  entries.foldl (fun properties (key, value) => properties.set key value)
    properties

theorem get?_setAll (properties : Properties)
    (entries : List (String × String)) (key : String) :
    (properties.setAll entries).get? key =
      (entries.reverse.lookup key).or (properties.get? key) := by
  induction entries generalizing properties with
  | nil => rfl
  | cons entry rest ih =>
      obtain ⟨name, value⟩ := entry
      have hset : (properties.set name value).get? key =
          ([(name, value)].lookup key).or (properties.get? key) := by
        by_cases hkey : key = name
        · simp [get?_set, hkey]
        · simp [get?_set, hkey, Ne.symm hkey]
      change ((properties.set name value).setAll rest).get? key = _
      rw [ih, hset, List.reverse_cons, List.lookup_append, Option.or_assoc]

theorem readD_setAll {α : Type} [Readable α] (entries : List (String × String))
    (key : String) (default : α) :
    (empty.setAll entries).readD key default =
      match entries.reverse.lookup key with
      | none => .ok default
      | some text =>
          match Readable.read text with
          | .ok value => .ok value
          | .error e => .error (.invalid key (.unreadable text e)) := by
  have hget : (empty.setAll entries).get? key =
      entries.reverse.lookup key := by
    rw [get?_setAll, get?_empty, Option.or_none]
  unfold readD
  exact hget ▸ rfl

theorem readD_setAll_of_none {α : Type} [Readable α] {key : String}
    (h : entries.reverse.lookup key = none) (default : α) :
    (empty.setAll entries).readD key default = .ok default := by
  rw [readD_setAll, h]

theorem readD_setAll_of_some {α : Type} [Readable α] {key text : String}
    {value : α} (h : entries.reverse.lookup key = some text)
    (hread : Readable.read text = .ok value) (default : α) :
    (empty.setAll entries).readD key default = .ok value := by
  rw [readD_setAll, h]
  simp only [hread]

theorem getD_setAll (entries : List (String × String)) (key default : String) :
    (empty.setAll entries).getD key default =
      (entries.reverse.lookup key).getD default := by
  unfold getD
  rw [get?_setAll, get?_empty, Option.or_none]

theorem lookup_reverse_eq_some_iff :
    entries.reverse.lookup key = some value ↔
      LastGives (fun entry key value => entry = (key, value)) entries key
        value := by
  rw [List.lookup_eq_some_iff]
  constructor
  · rintro ⟨after, before, hentries, hafter⟩
    refine ⟨before.reverse, (key, value), after.reverse, ?_, rfl, ?_⟩
    · simpa using congrArg List.reverse hentries
    · rintro later hlater other rfl
      simpa using hafter _ (List.mem_reverse.1 hlater)
  · rintro ⟨before, entry, after, rfl, rfl, hafter⟩
    refine ⟨after.reverse, before.reverse, by simp, ?_⟩
    rintro ⟨name, other⟩ hlater
    have hne : name ≠ key := by
      rintro rfl
      exact hafter _ (List.mem_reverse.1 hlater) other rfl
    simpa using hne.symm

/-- Of lines, the last that assigns to a key gives the last assignment. -/
theorem lastGives_filterMap {lines : List (List Char)} :
    LastGives (fun entry key value => entry = (key, value))
        (lines.filterMap assigned?) key value ↔
      LastGives Assigns lines key value := by
  constructor
  · rintro ⟨before, entry, after, hlines, rfl, hafter⟩
    obtain ⟨front, rest, rfl, rfl, hrest⟩ := List.filterMap_eq_append_iff.1 hlines
    obtain ⟨idle, line, back, rfl, -, hline, rfl⟩ :=
      List.filterMap_eq_cons_iff.1 hrest
    refine ⟨front ++ idle, line, back, by simp, assigned?_eq_some_iff.1 hline, ?_⟩
    intro later hlater other hgives
    have hmem : (key, other) ∈ back.filterMap assigned? :=
      List.mem_filterMap.2 ⟨later, hlater, assigned?_eq_some_iff.2 hgives⟩
    exact hafter _ hmem other rfl
  · rintro ⟨before, line, after, rfl, hline, hafter⟩
    refine ⟨before.filterMap assigned?, (key, value), after.filterMap assigned?,
      ?_, rfl, ?_⟩
    · simp [assigned?_eq_some_iff.2 hline]
    · rintro later hlater other rfl
      obtain ⟨line, hmem, hassigned⟩ := List.mem_filterMap.1 hlater
      exact hafter line hmem other (assigned?_eq_some_iff.1 hassigned)

theorem lookup_eq_some_iff_mem (h : (entries.map Prod.fst).Nodup) :
    entries.lookup key = some value ↔ (key, value) ∈ entries := by
  rw [List.lookup_eq_some_iff]
  constructor
  · rintro ⟨before, after, rfl, -⟩
    simp
  · intro hmem
    obtain ⟨before, after, rfl⟩ := List.append_of_mem hmem
    refine ⟨before, after, rfl, ?_⟩
    rintro ⟨name, other⟩ hname
    have hne : name ≠ key := by
      rintro rfl
      rw [List.map_append, List.nodup_append] at h
      exact h.2.2 name (List.mem_map.2 ⟨_, hname, rfl⟩) name (by simp) rfl
    simpa using hne.symm

end Entries

/-! ## Lines -/

section Lines

variable {number : Nat} {properties result : Properties}
  {lines : List (List Char)} {e : SettingsError}

theorem readLines_cons_idle (h : ¬Speaks line) :
    readLines number properties (line :: lines) =
      readLines (number + 1) properties lines := by
  simp [readLines, isIdle_trim_iff, h]

theorem readLines_cons_assignment (h : Speaks line)
    (hassignment : assignment? line = some (key, value)) :
    readLines number properties (line :: lines) =
      readLines (number + 1) (properties.set key value) lines := by
  simp [readLines, isIdle_trim_iff, h, assignment?_trim, hassignment]

theorem readLines_cons_fault (h : Speaks line) (hequals : '=' ∉ line) :
    readLines number properties (line :: lines) =
      .error (.invalid (String.ofList (Text.trim line))
        (.notAssignment number)) := by
  simp [readLines, isIdle_trim_iff, h, assignment?_trim,
    assignment?_eq_none_iff.2 hequals]

theorem readLines_eq_ok_iff :
    readLines number properties lines = .ok result ↔
      (∀ line ∈ lines, Speaks line → '=' ∈ line) ∧
        result = properties.setAll (lines.filterMap assigned?) := by
  induction lines generalizing number properties with
  | nil => simp [readLines, setAll, eq_comm]
  | cons line rest ih =>
      by_cases hspeaks : Speaks line
      · by_cases hequals : '=' ∈ line
        · obtain ⟨key, value, hassignment⟩ := exists_assignment? hequals
          rw [readLines_cons_assignment hspeaks hassignment, ih]
          simp [assigned?, hspeaks, hassignment, hequals, setAll]
        · rw [readLines_cons_fault hspeaks hequals]
          simp [hspeaks, hequals]
      · rw [readLines_cons_idle hspeaks, ih]
        simp [assigned?, hspeaks]

theorem readLines_eq_error_iff :
    readLines number properties lines = .error e ↔
      ∃ before line after, lines = before ++ line :: after ∧
        (∀ earlier ∈ before, Speaks earlier → '=' ∈ earlier) ∧
        Speaks line ∧ '=' ∉ line ∧
        e = .invalid (String.ofList (Text.trim line))
          (.notAssignment (number + before.length)) := by
  induction lines generalizing number properties with
  | nil => simp [readLines]
  | cons line rest ih =>
      -- A line that is no fault is one of those before the first fault.
      have hlater (number : Nat) (h : Speaks line → '=' ∈ line) :
          (∃ before fault after, line :: rest = before ++ fault :: after ∧
            (∀ earlier ∈ before, Speaks earlier → '=' ∈ earlier) ∧
            Speaks fault ∧ '=' ∉ fault ∧
            e = .invalid (String.ofList (Text.trim fault))
              (.notAssignment (number + before.length))) ↔
          ∃ before fault after, rest = before ++ fault :: after ∧
            (∀ earlier ∈ before, Speaks earlier → '=' ∈ earlier) ∧
            Speaks fault ∧ '=' ∉ fault ∧
            e = .invalid (String.ofList (Text.trim fault))
              (.notAssignment (number + 1 + before.length)) := by
        constructor
        · rintro ⟨before, fault, after, hlines, hbefore, hspeaks, hequals, rfl⟩
          cases before with
          | nil =>
              cases hlines
              exact absurd (h hspeaks) hequals
          | cons first before =>
              cases hlines
              refine ⟨before, fault, after, rfl,
                (List.forall_mem_cons.1 hbefore).2, hspeaks, hequals, ?_⟩
              rw [List.length_cons, Nat.add_assoc, Nat.add_comm 1]
        · rintro ⟨before, fault, after, rfl, hbefore, hspeaks, hequals, rfl⟩
          refine ⟨line :: before, fault, after, rfl,
            List.forall_mem_cons.2 ⟨h, hbefore⟩, hspeaks, hequals, ?_⟩
          rw [List.length_cons, Nat.add_assoc, Nat.add_comm 1]
      by_cases hspeaks : Speaks line
      · by_cases hequals : '=' ∈ line
        · obtain ⟨key, value, hassignment⟩ := exists_assignment? hequals
          rw [readLines_cons_assignment hspeaks hassignment, ih,
            hlater number fun _ => hequals]
        · rw [readLines_cons_fault hspeaks hequals]
          constructor
          · rintro ⟨⟩
            exact ⟨[], line, rest, rfl, by simp, hspeaks, hequals, rfl⟩
          · rintro ⟨before, fault, after, hlines, hbefore, -, -, rfl⟩
            cases before with
            | nil =>
                cases hlines
                rfl
            | cons first before =>
                cases hlines
                exact absurd (hbefore line (by simp) hspeaks) hequals
      · rw [readLines_cons_idle hspeaks, ih,
          hlater number fun h => absurd h hspeaks]

end Lines

/-! ## Files -/

section Files

variable {text : String} {properties : Properties}

def assignments (text : String) : List (String × String) :=
  (Text.lines text.toList).filterMap assigned?

def faults (text : String) : List (List Char) :=
  (Text.lines text.toList).filterMap fault?

theorem faults_eq_nil_iff :
    faults text = [] ↔
      ∀ line ∈ Text.lines text.toList, Speaks line → '=' ∈ line := by
  simp only [faults, List.filterMap_eq_nil_iff, fault?_eq_none_iff]

theorem parse_eq_ok_iff :
    parse text = .ok properties ↔
      faults text = [] ∧ properties = empty.setAll (assignments text) := by
  rw [parse, readLines_eq_ok_iff, faults_eq_nil_iff, assignments]

theorem exists_parse_iff :
    (∃ properties, parse text = .ok properties) ↔ faults text = [] := by
  simp [parse_eq_ok_iff]

theorem get?_of_parse (h : parse text = .ok properties) (key : String) :
    properties.get? key = (assignments text).reverse.lookup key := by
  rw [(parse_eq_ok_iff.1 h).2, get?_setAll, get?_empty, Option.or_none]

theorem assignments_intercalate (texts : List String) :
    assignments ("\n".intercalate texts) = texts.flatMap assignments := by
  have hlines := Text.filterMap_lines_intercalate assigned?_trim rfl
    (texts.map String.toList)
  rw [List.flatMap_map] at hlines
  rw [assignments, String.toList_intercalate]
  exact hlines

theorem faults_intercalate (texts : List String) :
    faults ("\n".intercalate texts) = texts.flatMap faults := by
  have hlines := Text.filterMap_lines_intercalate fault?_trim rfl
    (texts.map String.toList)
  rw [List.flatMap_map] at hlines
  rw [faults, String.toList_intercalate]
  exact hlines

theorem assignments_of_line (h : '\n' ∉ text.toList) :
    assignments text = (assigned? text.toList).toList :=
  Text.filterMap_lines_of_line assigned?_trim rfl h

theorem faults_of_line (h : '\n' ∉ text.toList) :
    faults text = (fault? text.toList).toList :=
  Text.filterMap_lines_of_line fault?_trim rfl h

theorem parse_of_line (hline : '\n' ∉ text.toList)
    (h : assigned? text.toList = some (key, value)) :
    ∃ properties, parse text = .ok properties ∧ ∀ other,
      properties.get? other = if other = key then some value else none := by
  obtain ⟨hspeaks, before, after, htext, -⟩ := assigned?_eq_some_iff.1 h
  have hsound : faults text = [] := by
    rw [faults_of_line hline, Option.toList_eq_nil_iff, fault?_eq_none_iff]
    simp [htext]
  refine ⟨_, parse_eq_ok_iff.2 ⟨hsound, rfl⟩, fun other => ?_⟩
  rw [get?_setAll, assignments_of_line hline, h]
  by_cases hother : other = key <;> simp [hother]

/-! ## Properties as files -/

/-- A key and a value that one line can assign and that trimming leaves. -/
structure Writable (key value : String) : Prop where
  trimmed_key : Text.trim key.toList = key.toList
  trimmed_value : Text.trim value.toList = value.toList
  line_key : '\n' ∉ key.toList
  line_value : '\n' ∉ value.toList
  no_equals : '=' ∉ key.toList
  no_comment : key.toList.head? ≠ some '#'

def lineOf (entry : String × String) : String := entry.1 ++ "=" ++ entry.2

theorem toList_lineOf (key value : String) :
    (lineOf (key, value)).toList = key.toList ++ '=' :: value.toList := by
  simp [lineOf]

theorem Writable.notMem_newline (h : Writable key value) :
    '\n' ∉ (lineOf (key, value)).toList := by
  simp [toList_lineOf, h.line_key, h.line_value]

theorem Writable.speaks (h : Writable key value) :
    Speaks (lineOf (key, value)).toList := by
  have hequals : Text.isBlank '=' = false := by decide
  have hhead : (Text.trim (lineOf (key, value)).toList).head? =
      key.toList.head?.or (some '=') := by
    rw [Text.head?_trim, toList_lineOf, List.find?_append, ← Text.head?_trim,
      h.trimmed_key, List.find?_cons_of_pos (by simp [hequals])]
  constructor
  · intro hnil
    simp [hnil] at hhead
  · rw [hhead]
    cases hkey : key.toList.head? with
    | none => simp
    | some c => simpa [hkey] using h.no_comment

theorem Writable.assigned? (h : Writable key value) :
    assigned? (lineOf (key, value)).toList = some (key, value) := by
  rw [assigned?_eq_some_iff]
  refine ⟨h.speaks, key.toList, value.toList, toList_lineOf key value,
    h.no_equals, ?_, ?_⟩
  · rw [h.trimmed_key, String.ofList_toList]
  · rw [h.trimmed_value, String.ofList_toList]

/-- Lines that assign each value of the map to its key, in any order and among
lines that say nothing. -/
structure Spells (written : List String) (map : Properties) : Prop where
  writable : ∀ key value, map.get? key = some value → Writable key value
  idle_lines : ∀ line ∈ written, ¬Speaks line.toList → '\n' ∉ line.toList
  assigning : (written.filter (Speaks ·.toList)).Perm
    (map.values.toList.map lineOf)

namespace Spells

variable {written : List String} {map : Properties}

theorem writable_of_mem (h : Spells written map) :
    ∀ entry ∈ map.values.toList, Writable entry.1 entry.2 := by
  rintro ⟨key, value⟩ hentry
  exact h.writable key value (Std.HashMap.mem_toList_iff_getElem?_eq_some.1 hentry)

theorem exists_lineOf (h : Spells written map) {line : String}
    (hline : line ∈ written) (hspeaks : Speaks line.toList) :
    ∃ entry ∈ map.values.toList, lineOf entry = line := by
  have hmem : line ∈ written.filter (Speaks ·.toList) :=
    List.mem_filter.2 ⟨hline, by simpa using hspeaks⟩
  exact List.mem_map.1 (h.assigning.subset hmem)

theorem notMem_newline (h : Spells written map) {line : String}
    (hline : line ∈ written) : '\n' ∉ line.toList := by
  by_cases hspeaks : Speaks line.toList
  · obtain ⟨entry, hentry, rfl⟩ := h.exists_lineOf hline hspeaks
    exact (h.writable_of_mem entry hentry).notMem_newline
  · exact h.idle_lines line hline hspeaks

theorem faults_eq_nil (h : Spells written map) :
    faults ("\n".intercalate written) = [] := by
  rw [faults_intercalate, List.flatMap_eq_nil_iff]
  intro line hline
  rw [faults_of_line (h.notMem_newline hline), Option.toList_eq_nil_iff,
    fault?_eq_none_iff]
  intro hspeaks
  obtain ⟨⟨key, value⟩, -, rfl⟩ := h.exists_lineOf hline hspeaks
  simp [toList_lineOf]

theorem assignments_eq (h : Spells written map) :
    assignments ("\n".intercalate written) =
      (written.filter (Speaks ·.toList)).filterMap (assigned? ·.toList) := by
  rw [assignments_intercalate, List.filterMap_filter,
    List.filterMap_eq_flatMap_toList]
  refine List.flatMap_congr fun line hline => ?_
  rw [assignments_of_line (h.notMem_newline hline)]
  by_cases hspeaks : Speaks line.toList <;> simp [assigned?, hspeaks]

theorem assignments_perm (h : Spells written map) :
    (assignments ("\n".intercalate written)).Perm map.values.toList := by
  have hback : (map.values.toList.map lineOf).filterMap (assigned? ·.toList) =
      map.values.toList := by
    rw [List.filterMap_map]
    refine (List.filterMap_congr fun entry hentry => ?_).trans List.filterMap_some
    exact (h.writable_of_mem entry hentry).assigned?
  rw [h.assignments_eq, ← hback]
  exact h.assigning.filterMap _

theorem parse (h : Spells written map) :
    ∃ parsed, parse ("\n".intercalate written) = .ok parsed ∧
      ∀ key, parsed.get? key = map.get? key := by
  have hperm := (List.reverse_perm _).trans h.assignments_perm
  have hkeys : (map.values.toList.map Prod.fst).Nodup := by
    rw [List.Nodup, List.pairwise_map]
    exact map.values.distinct_keys_toList.imp fun h => by simpa using h
  refine ⟨_, parse_eq_ok_iff.2 ⟨h.faults_eq_nil, rfl⟩, fun key => ?_⟩
  ext value
  rw [get?_setAll, get?_empty, Option.or_none,
    lookup_eq_some_iff_mem ((hperm.map _).nodup_iff.2 hkeys),
    hperm.mem_iff, Std.HashMap.mem_toList_iff_getElem?_eq_some, get?]

end Spells

/-- A file is accepted if every line of it that says something has an equals
sign.  Then the value of a key is that of the last line that assigns to it, and
other keys have none; else the first line without an equals sign is reported
with its number among all lines.  The lines of a map, in any order and with
lines between them that say nothing, are read as the map. -/
theorem parse_takes_last_assignments :
    (∀ text : String,
      let lines := Text.lines text.toList
      ((∃ properties, parse text = .ok properties) ↔
        ∀ line ∈ lines, Speaks line → '=' ∈ line) ∧
      (∀ properties, parse text = .ok properties → ∀ key value,
        properties.get? key = some value ↔
          LastGives Assigns lines key value) ∧
      ∀ e, parse text = .error e ↔
        ∃ before line after, lines = before ++ line :: after ∧
          (∀ earlier ∈ before, Speaks earlier → '=' ∈ earlier) ∧
          Speaks line ∧ '=' ∉ line ∧
          e = .invalid (String.ofList (Text.trim line))
            (.notAssignment (before.length + 1)) ∧
          (Fault.notAssignment (before.length + 1)).message =
            s!"line {before.length + 1} is not key=value") ∧
    ∀ (map : Properties) (written : List String), Spells written map →
      ∃ parsed, parse ("\n".intercalate written) = .ok parsed ∧
        ∀ key, parsed.get? key = map.get? key := by
  refine ⟨fun text => ⟨?_, ?_, ?_⟩, fun map written h => h.parse⟩
  · rw [exists_parse_iff, faults_eq_nil_iff]
  · intro properties h key value
    rw [get?_of_parse h, lookup_reverse_eq_some_iff, assignments,
      lastGives_filterMap]
  · intro e
    rw [parse, readLines_eq_error_iff]
    constructor
    · rintro ⟨before, line, after, hlines, hbefore, hspeaks, hequals, rfl⟩
      rw [Nat.add_comm]
      exact ⟨before, line, after, hlines, hbefore, hspeaks, hequals, rfl, rfl⟩
    · rintro ⟨before, line, after, hlines, hbefore, hspeaks, hequals, rfl, -⟩
      rw [Nat.add_comm]
      exact ⟨before, line, after, hlines, hbefore, hspeaks, hequals, rfl⟩

/-- The second assignment to a key counts, a comment and a blank line do not but
have numbers, and a value keeps its equals signs. -/
theorem parse_takes_last_assignments_noted :
    (∃ properties, parse "a = 1\n # a=2\na=3=4" = .ok properties ∧
      properties.get? "a" = some "3=4") ∧
    parse "a=1\n\n b " = .error (.invalid "b" (.notAssignment 3)) ∧
    ∃ parsed, parse ("\n".intercalate [" ", "a=3=4", "#a=2"]) = .ok parsed ∧
      parsed.get? "a" = some "3=4" := by
  obtain ⟨hfiles, hmaps⟩ := parse_takes_last_assignments
  refine ⟨?_, ?_, ?_⟩
  · obtain ⟨hok, hlast, -⟩ := hfiles "a = 1\n # a=2\na=3=4"
    obtain ⟨properties, hproperties⟩ := hok.2 (by decide)
    refine ⟨properties, hproperties, (hlast _ hproperties "a" "3=4").2 ?_⟩
    exact ⟨["a = 1".toList, " # a=2".toList], "a=3=4".toList, [], by decide,
      ⟨by decide, ['a'], "3=4".toList, by decide, by decide, by decide,
        by decide⟩, by simp⟩
  · refine ((hfiles "a=1\n\n b ").2.2 _).2 ?_
    exact ⟨["a=1".toList, []], " b ".toList, [], by decide, by decide, by decide,
      by decide, by decide, rfl⟩
  · let map := empty.set "a" "3=4"
    have hentries : map.values.toList = [("a", "3=4")] := by
      have hperm := Std.HashMap.toList_insert_perm
        (m := (∅ : Std.HashMap String String)) (k := "a") (v := "3=4")
      simpa [map, set, empty] using hperm
    obtain ⟨parsed, hparsed, hget⟩ := hmaps map [" ", "a=3=4", "#a=2"] {
      writable := by
        intro key value hvalue
        simp only [map, get?_set, get?_empty, Option.ite_none_right_eq_some]
          at hvalue
        obtain ⟨rfl, ⟨⟩⟩ := hvalue
        constructor <;> decide
      idle_lines := by decide
      assigning := by
        rw [hentries]
        decide }
    exact ⟨parsed, hparsed, by simp [hget, map, get?_set]⟩

end Files

end TieredCache.Properties
