import Mathlib
import TieredCache.CommandLine.Run
import TieredCache.Proofs.Errors
import TieredCache.Proofs.Settings.Properties

/-!
# Sources of properties

Properties come from files and, after them, from arguments of the command line.
The last assignment to a key counts, as it would if all files and arguments were
the lines of one file.
-/

namespace TieredCache.CommandLine

open Properties (assignments faults setAll Speaks Assigns LastGives)

variable {files : Files} {options given : Options} {properties result : Properties}
  {sources : List (String × String)} {raws : List String} {failure : Failure}
  {key value : String}

/-! ## Files -/

theorem readFiles_cons {path text : String} {more : Properties}
    (hfile : files path = .ok text) (hparse : Properties.parse text = .ok more)
    (properties : Properties) (rest : List String) :
    readFiles files properties (path :: rest) =
      readFiles files (properties.extend more) rest := by
  simp [readFiles, hfile, hparse]

theorem readFiles_cons_error {path text : String} {e : SettingsError}
    (hfile : files path = .ok text) (hparse : Properties.parse text = .error e)
    (properties : Properties) (rest : List String) :
    readFiles files properties (path :: rest) = .error (.badFile path e) := by
  simp [readFiles, hfile, hparse]

/-- Files are given by their paths and texts. -/
def Stored (files : Files) (sources : List (String × String)) : Prop :=
  ∀ source ∈ sources, files source.1 = .ok source.2

theorem readFiles_append (hstored : Stored files sources)
    (hsound : ∀ source ∈ sources, faults source.2 = [])
    (properties : Properties) :
    ∃ result,
      (∀ rest, readFiles files properties (sources.map Prod.fst ++ rest) =
        readFiles files result rest) ∧
      ∀ key, result.get? key =
        ((sources.flatMap (assignments ·.2)).reverse.lookup key).or
          (properties.get? key) := by
  induction sources generalizing properties with
  | nil => exact ⟨properties, fun rest => rfl, fun key => by simp⟩
  | cons source sources ih =>
      obtain ⟨hfile, hfiles⟩ := List.forall_mem_cons.1 hstored
      obtain ⟨hfirst, hrest⟩ := List.forall_mem_cons.1 hsound
      obtain ⟨more, hparse⟩ := Properties.exists_parse_iff.2 hfirst
      obtain ⟨result, hread, hget⟩ := ih hfiles hrest (properties.extend more)
      refine ⟨result, fun rest => ?_, fun key => ?_⟩
      · rw [List.map_cons, List.cons_append, readFiles_cons hfile hparse, hread]
      · rw [hget, Properties.get?_extend, Properties.get?_of_parse hparse,
          List.flatMap_cons, List.reverse_append, List.lookup_append,
          Option.or_assoc]

theorem exists_parse_error_iff {text : String} :
    (∃ e, Properties.parse text = .error e) ↔ faults text ≠ [] := by
  rw [exists_error_iff, Properties.exists_parse_iff]

theorem exists_first_fault (h : ¬∀ source ∈ sources, faults source.2 = []) :
    ∃ before source after e, sources = before ++ source :: after ∧
      (∀ earlier ∈ before, faults earlier.2 = []) ∧
      Properties.parse source.2 = .error e := by
  cases hfault : sources.find? fun source => faults source.2 ≠ [] with
  | none => exact absurd (by simpa using hfault) h
  | some source =>
      obtain ⟨hsource, before, after, hsources, hbefore⟩ :=
        List.find?_eq_some_iff_append.1 hfault
      obtain ⟨e, he⟩ := exists_parse_error_iff.2 (by simpa using hsource)
      exact ⟨before, source, after, e, hsources, by simpa using hbefore, he⟩

/-! ## Files and arguments -/

section Collect

variable (hstored : Stored files sources)
  (hpaths : options.propertyFiles = sources.map Prod.fst)

include hstored hpaths

theorem collect_of_sound (hsound : ∀ source ∈ sources, faults source.2 = []) :
    ∃ properties, options.collect files = .ok properties ∧
      ∀ key, properties.get? key =
        (options.properties.reverse.lookup key).or
          ((sources.flatMap (assignments ·.2)).reverse.lookup key) := by
  obtain ⟨result, hread, hget⟩ :=
    readFiles_append hstored hsound Properties.empty
  have hfiles := hread []
  rw [List.append_nil, ← hpaths] at hfiles
  refine ⟨result.setAll options.properties, ?_, fun key => ?_⟩
  · simp only [Options.collect, hfiles, readFiles, setAll]
  · rw [Properties.get?_setAll, hget, Properties.get?_empty, Option.or_none]

theorem collect_of_fault {before after : List (String × String)}
    {source : String × String} {e : SettingsError}
    (hsources : sources = before ++ source :: after)
    (hbefore : ∀ earlier ∈ before, faults earlier.2 = [])
    (he : Properties.parse source.2 = .error e) :
    options.collect files = .error (.badFile source.1 e) := by
  have hfiles : Stored files before :=
    fun earlier h => hstored earlier (by simp [hsources, h])
  have hfile : files source.1 = .ok source.2 :=
    hstored source (by simp [hsources])
  obtain ⟨result, hread, -⟩ := readFiles_append hfiles hbefore Properties.empty
  have herror : readFiles files Properties.empty options.propertyFiles =
      .error (.badFile source.1 e) := by
    rw [hpaths, hsources, List.map_append, hread]
    exact readFiles_cons_error hfile he result _
  simp only [Options.collect, herror]

theorem collect_eq_error_iff :
    options.collect files = .error failure ↔
      ∃ before source after e, sources = before ++ source :: after ∧
        (∀ earlier ∈ before, faults earlier.2 = []) ∧
        Properties.parse source.2 = .error e ∧
        failure = .badFile source.1 e := by
  constructor
  · intro h
    by_cases hsound : ∀ source ∈ sources, faults source.2 = []
    · obtain ⟨properties, hok, -⟩ := collect_of_sound hstored hpaths hsound
      simp [hok] at h
    · obtain ⟨before, source, after, e, hsources, hbefore, he⟩ :=
        exists_first_fault hsound
      rw [collect_of_fault hstored hpaths hsources hbefore he] at h
      cases h
      exact ⟨before, source, after, e, hsources, hbefore, he, rfl⟩
  · rintro ⟨before, source, after, e, hsources, hbefore, he, rfl⟩
    exact collect_of_fault hstored hpaths hsources hbefore he

theorem exists_collect_iff :
    (∃ properties, options.collect files = .ok properties) ↔
      ∀ source ∈ sources, faults source.2 = [] := by
  constructor
  · rintro ⟨properties, hok⟩
    by_contra hfault
    obtain ⟨before, source, after, e, hsources, hbefore, he⟩ :=
      exists_first_fault hfault
    rw [collect_of_fault hstored hpaths hsources hbefore he] at hok
    cases hok
  · intro hsound
    obtain ⟨properties, hok, -⟩ := collect_of_sound hstored hpaths hsound
    exact ⟨properties, hok⟩

theorem get?_of_collect (h : options.collect files = .ok properties)
    (key : String) :
    properties.get? key =
      (options.properties.reverse.lookup key).or
        ((sources.flatMap (assignments ·.2)).reverse.lookup key) := by
  obtain ⟨collected, hok, hget⟩ := collect_of_sound hstored hpaths
    ((exists_collect_iff hstored hpaths).1 ⟨properties, h⟩)
  rw [h] at hok
  cases hok
  exact hget key

theorem get?_collect_eq_some_iff
    (h : options.collect files = .ok properties) :
    properties.get? key = some value ↔
      LastGives (fun entry key value => entry = (key, value))
        options.properties key value ∨
      (∀ entry ∈ options.properties, entry.1 ≠ key) ∧
        LastGives Assigns
          (sources.flatMap fun source => Text.lines source.2.toList)
          key value := by
  have habsent : options.properties.reverse.lookup key = none ↔
      ∀ entry ∈ options.properties, entry.1 ≠ key := by
    simp only [List.lookup_eq_none_iff, List.mem_reverse, bne_iff_ne]
    exact forall₂_congr fun entry _ => ne_comm
  have hentries : sources.flatMap (assignments ·.2) =
      (sources.flatMap fun source =>
        Text.lines source.2.toList).filterMap Properties.assigned? :=
    (List.filterMap_flatMap ..).symm
  rw [get?_of_collect hstored hpaths h, Option.or_eq_some_iff, habsent,
    Properties.lookup_reverse_eq_some_iff, hentries,
    Properties.lookup_reverse_eq_some_iff, Properties.lastGives_filterMap]

end Collect

/-! ## Arguments as lines -/

def Options.giveAll (options : Options) (raws : List String) :
    Except Refusal Options :=
  raws.foldlM (fun options raw => options.set .property raw) options

theorem set_property {raw : String}
    (h : Properties.assignment? raw.toList = some (key, value)) :
    options.set .property raw =
      .ok { options with properties := options.properties ++ [(key, value)] } := by
  simp only [Options.set, h]

theorem set_property_error {raw : String}
    (h : Properties.assignment? raw.toList = none) :
    options.set .property raw = .error (.badProperty raw) := by
  simp only [Options.set, h]

theorem giveAll_eq_ok (hspeak : ∀ raw ∈ raws, Speaks raw.toList)
    (h : given.giveAll raws = .ok options) :
    options.properties = given.properties ++
        raws.filterMap (Properties.assigned? ·.toList) ∧
      ∀ raw ∈ raws, '=' ∈ raw.toList := by
  induction raws generalizing given with
  | nil =>
      cases h
      simp
  | cons raw raws ih =>
      obtain ⟨hraw, hraws⟩ := List.forall_mem_cons.1 hspeak
      rw [Options.giveAll, List.foldlM_cons] at h
      obtain ⟨next, hset, hrest⟩ := exists_of_bind h
      by_cases hequals : '=' ∈ raw.toList
      · obtain ⟨key, value, hassignment⟩ :=
          Properties.exists_assignment? hequals
        rw [set_property hassignment] at hset
        cases hset
        obtain ⟨hproperties, hlater⟩ := ih hraws hrest
        refine ⟨?_, List.forall_mem_cons.2 ⟨hequals, hlater⟩⟩
        simp [hproperties, Properties.assigned?, hraw, hassignment]
      · rw [set_property_error (Properties.assignment?_eq_none_iff.2 hequals)]
          at hset
        cases hset

theorem faults_of_raws (hlines : ∀ raw ∈ raws, '\n' ∉ raw.toList)
    (hequals : ∀ raw ∈ raws, '=' ∈ raw.toList) :
    raws.flatMap faults = [] := by
  rw [List.flatMap_eq_nil_iff]
  intro raw hraw
  rw [Properties.faults_of_line (hlines raw hraw), Option.toList_eq_nil_iff,
    Properties.fault?_eq_none_iff]
  exact fun _ => hequals raw hraw

theorem assignments_of_raws (hlines : ∀ raw ∈ raws, '\n' ∉ raw.toList) :
    raws.flatMap assignments =
      raws.filterMap (Properties.assigned? ·.toList) := by
  rw [List.filterMap_eq_flatMap_toList]
  exact List.flatMap_congr fun raw hraw =>
    Properties.assignments_of_line (hlines raw hraw)

/-- An argument that is a line with something to say is refused as a file, or
accepted as one with the same meaning. -/
theorem set_property_cases {raw : String} (hline : '\n' ∉ raw.toList)
    (hspeaks : Speaks raw.toList) (options : Options) :
    (options.set .property raw = .error (.badProperty raw) ∧
      ∃ e, Properties.parse raw = .error e) ∨
    ∃ key value properties, options.set .property raw = .ok { options with
        properties := options.properties ++ [(key, value)] } ∧
      Properties.parse raw = .ok properties ∧
      ∀ other, properties.get? other =
        if other = key then some value else none := by
  by_cases hequals : '=' ∈ raw.toList
  · obtain ⟨key, value, hassignment⟩ := Properties.exists_assignment? hequals
    obtain ⟨properties, hparse, hget⟩ := Properties.parse_of_line hline
      (show Properties.assigned? raw.toList = some (key, value) by
        simp [Properties.assigned?, hspeaks, hassignment])
    exact .inr ⟨key, value, properties, set_property hassignment, hparse, hget⟩
  · have hnone := Properties.assignment?_eq_none_iff.2 hequals
    refine .inl ⟨set_property_error hnone, exists_parse_error_iff.2 ?_⟩
    rw [Properties.faults_of_line hline, ne_eq, Option.toList_eq_nil_iff,
      Properties.fault?_eq_none_iff]
    exact fun h => hequals (h hspeaks)

theorem parse_joined (hstored : Stored files sources)
    (hpaths : options.propertyFiles = sources.map Prod.fst)
    (hnone : given.properties = []) (hgiven : given.giveAll raws = .ok options)
    (hraws : ∀ raw ∈ raws, '\n' ∉ raw.toList ∧ Speaks raw.toList) :
    let joined := "\n".intercalate (sources.map Prod.snd ++ raws)
    ((∃ properties, Properties.parse joined = .ok properties) ↔
      ∃ properties, options.collect files = .ok properties) ∧
    ∀ whole properties, Properties.parse joined = .ok whole →
      options.collect files = .ok properties →
      ∀ key, whole.get? key = properties.get? key := by
  intro joined
  have hlines : ∀ raw ∈ raws, '\n' ∉ raw.toList := fun raw h => (hraws raw h).1
  obtain ⟨hproperties, hequals⟩ :=
    giveAll_eq_ok (fun raw h => (hraws raw h).2) hgiven
  rw [hnone, List.nil_append] at hproperties
  constructor
  · rw [Properties.exists_parse_iff, exists_collect_iff hstored hpaths,
      Properties.faults_intercalate, List.flatMap_append,
      faults_of_raws hlines hequals, List.append_nil, List.flatMap_map,
      List.flatMap_eq_nil_iff]
  · intro whole properties hwhole hcollect key
    rw [Properties.get?_of_parse hwhole,
      get?_of_collect hstored hpaths hcollect, hproperties,
      Properties.assignments_intercalate, List.flatMap_append,
      assignments_of_raws hlines, List.reverse_append, List.lookup_append,
      List.flatMap_map]

/-- Properties are refused for the first file that has a fault.  Otherwise the
value of a key is that of the last argument that assigns to it or, without such
an argument, of the last line of all files that does.  An argument that is a
line with something to say is accepted as it is in a file, and means the same;
so such arguments could be the last lines of one file with all others. -/
theorem sources_make_one_file (hstored : Stored files sources)
    (hpaths : options.propertyFiles = sources.map Prod.fst) :
    ((∃ failure, options.collect files = .error failure) ↔
      ∃ source ∈ sources, ∃ e, Properties.parse source.2 = .error e) ∧
    (∀ failure, options.collect files = .error failure ↔
      ∃ before source after e, sources = before ++ source :: after ∧
        (∀ earlier ∈ before, ∃ properties,
          Properties.parse earlier.2 = .ok properties) ∧
        Properties.parse source.2 = .error e ∧
        failure = .badFile source.1 e) ∧
    (∀ properties, options.collect files = .ok properties → ∀ key value,
      properties.get? key = some value ↔
        LastGives (fun entry key value => entry = (key, value))
          options.properties key value ∨
        (∀ entry ∈ options.properties, entry.1 ≠ key) ∧
          LastGives Assigns
            (sources.flatMap fun source => Text.lines source.2.toList)
            key value) ∧
    (∀ raw : String, '\n' ∉ raw.toList → Speaks raw.toList →
      ((∃ changed, options.set .property raw = .ok changed) ↔
        ∃ properties, Properties.parse raw = .ok properties) ∧
      ∀ key value,
        options.set .property raw = .ok { options with
            properties := options.properties ++ [(key, value)] } ↔
          ∃ properties, Properties.parse raw = .ok properties ∧
            ∀ other, properties.get? other =
              if other = key then some value else none) ∧
    ∀ (given : Options) (raws : List String), given.properties = [] →
      given.giveAll raws = .ok options →
      (∀ raw ∈ raws, '\n' ∉ raw.toList ∧ Speaks raw.toList) →
      let joined := "\n".intercalate (sources.map Prod.snd ++ raws)
      ((∃ properties, Properties.parse joined = .ok properties) ↔
        ∃ properties, options.collect files = .ok properties) ∧
      ∀ whole properties, Properties.parse joined = .ok whole →
        options.collect files = .ok properties →
        ∀ key, whole.get? key = properties.get? key := by
  refine ⟨?_, ?_, ?_, ?_, ?_⟩
  · rw [exists_error_iff, exists_collect_iff hstored hpaths]
    simp [exists_parse_error_iff]
  · simp only [collect_eq_error_iff hstored hpaths, Properties.exists_parse_iff,
      implies_true]
  · intro properties h key value
    exact get?_collect_eq_some_iff hstored hpaths h
  · intro raw hline hspeaks
    rcases set_property_cases hline hspeaks options with
      ⟨hset, e, hparse⟩ | ⟨name, text, properties, hset, hparse, hget⟩
    · simp [hset, hparse]
    · refine ⟨by simp [hset, hparse], fun key value => ?_⟩
      simp only [hset, hparse, Except.ok.injEq, Options.mk.injEq,
        List.append_cancel_left_eq, List.cons.injEq, Prod.mk.injEq, true_and,
        and_true, exists_eq_left', hget]
      constructor
      · rintro ⟨rfl, rfl⟩
        exact fun other => rfl
      · intro hsame
        simpa [eq_comm] using hsame name
  · intro given raws hnone hgiven hraws
    exact parse_joined hstored hpaths hnone hgiven hraws

def twoFiles : Files
  | "first" => .ok "x=1\r"
  | "second" => .ok "y = 2"
  | _ => .error .missing

/-- The carriage return at the end of a file goes with the line feed after it,
and an argument replaces what a file gives. -/
theorem sources_make_one_file_twoFiles :
    let options : Options :=
      { propertyFiles := ["first", "second"], properties := [("x", "3")] }
    ∃ properties whole, options.collect twoFiles = .ok properties ∧
      properties.get? "x" = some "3" ∧
      Properties.parse ("\n".intercalate ["x=1\r", "y = 2", "x = 3"]) =
        .ok whole ∧
      whole.get? "x" = some "3" := by
  intro options
  let sources := [("first", "x=1\r"), ("second", "y = 2")]
  have hstored : Stored twoFiles sources := by simp [Stored, twoFiles, sources]
  have hpaths : options.propertyFiles = sources.map Prod.fst := rfl
  obtain ⟨-, -, hvalues, -, hjoined⟩ := sources_make_one_file hstored hpaths
  obtain ⟨hiff, hsame⟩ := hjoined { propertyFiles := ["first", "second"] }
    ["x = 3"] rfl rfl (by decide)
  obtain ⟨properties, hproperties⟩ :=
    (exists_collect_iff hstored hpaths).2 (by decide)
  obtain ⟨whole, hwhole⟩ := hiff.2 ⟨properties, hproperties⟩
  have hx : properties.get? "x" = some "3" :=
    (hvalues properties hproperties "x" "3").2
      (.inl ⟨[], ("x", "3"), [], rfl, rfl, by simp⟩)
  exact ⟨properties, whole, hproperties, hx, hwhole,
    (hsame whole properties hwhole hproperties "x").trans hx⟩

end TieredCache.CommandLine
