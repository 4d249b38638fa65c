import AliasStubs.Proofs.Aliases.Scan
import AliasStubs.Proofs.Generation.Repetition
import AliasStubs.Proofs.Sequences

/-!
# What becomes of the candidates

Every candidate in a directory meets one of three fates: it cannot be opened, it is opened but its
types cannot be told, or it is scanned. A run that succeeds reports each candidate of the first two
kinds once, and writes the aliases of the third kind as if there were no others. So candidates that
are broken stay isolated: where some are added or taken away, the run writes the same text and
reports the same, except for the modules that it left out.

## Main definitions

* `Fate` : what becomes of a candidate, `fate` tells it.
* `AliasMember.lineText` and `ContainerAliases.regionText` : the texts in which aliases appear.
* `Config.Accounts` : a run accounts for every candidate.
* `FileTree.DiffersInBroken` : two trees differ in broken candidates of a directory only.

## Main results

* `scan_opened` : a scan of the modules that could be opened.
* `Config.accounts_of_generate` : **every candidate is accounted for once**.
* `Config.generate_isolates_broken` : and **broken ones change only what is reported of them**.
-/

namespace AliasStubs

open FileTree

/-! ### Fates -/

/-- What becomes of a candidate. -/
inductive Fate
  /-- It cannot be opened. -/
  | unopened (failure : ModuleFailure)
  /-- It is opened, but its types cannot be told. -/
  | undecoded (failure : ModuleFailure)
  /-- It is opened, and its types are told. -/
  | scanned (m : Module)

namespace Fate

/-- Why the candidate cannot be opened, if it cannot. -/
def unopened? : Fate → Option ModuleFailure
  | unopened failure => some failure
  | _ => none

/-- Why the types of the candidate cannot be told, if it is opened and they cannot. -/
def undecoded? : Fate → Option ModuleFailure
  | undecoded failure => some failure
  | _ => none

/-- The module in the candidate, if its types are told. -/
def scanned? : Fate → Option Module
  | scanned m => some m
  | _ => none

end Fate

/-- What becomes of a candidate that is opened by the reader `headers?`. -/
def fate (headers? : HeaderReader) (entry : String × ByteArray) : Fate :=
  match Assembly.ofImage headers? entry.1 entry.2 with
  | .error cause => .unopened ⟨entry.1, cause⟩
  | .ok a =>
    match a.types with
    | .error cause => .undecoded ⟨entry.1, cause⟩
    | .ok _ => .scanned a.toModule

/-- The modules in those candidates whose types are told, in the order of the candidates. -/
def scannedModules (headers? : HeaderReader) (found : List (String × ByteArray)) : List Module :=
  found.filterMap fun entry => (fate headers? entry).scanned?

/-- What is reported of candidates: first those that cannot be opened, and then those whose types
cannot be told, both in the order of the candidates. -/
def leftOut (headers? : HeaderReader) (found : List (String × ByteArray)) : List ModuleFailure :=
  (found.filterMap fun entry => (fate headers? entry).unopened?) ++
    found.filterMap fun entry => (fate headers? entry).undecoded?

variable {headers? : HeaderReader}

section Opened

variable {name : String} {bytes : ByteArray} {a : Assembly} {cause : Failure}

theorem fate_of_error (h : Assembly.ofImage headers? name bytes = .error cause) :
    fate headers? (name, bytes) = .unopened ⟨name, cause⟩ := by
  simp only [fate, h]

theorem fate_of_types_error (h : Assembly.ofImage headers? name bytes = .ok a)
    (htypes : a.types = .error cause) :
    fate headers? (name, bytes) = .undecoded ⟨name, cause⟩ := by
  simp only [fate, h, htypes]

theorem fate_of_types_ok (h : Assembly.ofImage headers? name bytes = .ok a)
    {types : List TypeDefinition} (htypes : a.types = .ok types) :
    fate headers? (name, bytes) = .scanned a.toModule := by
  simp only [fate, h, htypes]

/-- An assembly has the name that it is opened by. -/
theorem name_of_ofImage
    (h : Assembly.ofImage headers? name bytes = .ok a) : a.name = name := by
  rw [Assembly.ofImage] at h
  obtain ⟨image, -, h⟩ := seq_eq_ok_iff.mp h
  obtain ⟨metadata, -, h⟩ := seq_eq_ok_iff.mp h
  obtain ⟨opened, -, h⟩ := seq_eq_ok_iff.mp h
  cases h
  rfl

end Opened

/-- Every candidate meets one of three fates. -/
theorem fate_cases (headers? : HeaderReader) (entry : String × ByteArray) :
    (∃ cause, openCandidate headers? entry = .error ⟨entry.1, cause⟩ ∧
      fate headers? entry = .unopened ⟨entry.1, cause⟩) ∨
    (∃ m cause, openCandidate headers? entry = .ok m ∧ m.name = entry.1 ∧ m.types = .error cause ∧
      fate headers? entry = .undecoded ⟨entry.1, cause⟩) ∨
    ∃ m types, openCandidate headers? entry = .ok m ∧ m.types = .ok types ∧
      fate headers? entry = .scanned m := by
  obtain ⟨name, bytes⟩ := entry
  cases himage : Assembly.ofImage headers? name bytes with
  | error cause => exact .inl ⟨cause, openCandidate_of_error himage, fate_of_error himage⟩
  | ok a =>
      cases htypes : a.types with
      | error cause =>
          exact .inr (.inl ⟨a.toModule, cause, openCandidate_of_ok himage, name_of_ofImage himage,
            htypes, fate_of_types_error himage htypes⟩)
      | ok types =>
          exact .inr (.inr ⟨a.toModule, types, openCandidate_of_ok himage, htypes,
            fate_of_types_ok himage htypes⟩)

/-- The types of a module that is scanned are told. -/
theorem types_of_scanned {entry : String × ByteArray} {m : Module}
    (h : fate headers? entry = .scanned m) : ∃ types, m.types = .ok types := by
  rcases fate_cases headers? entry with ⟨cause, -, hfate⟩ | ⟨m', cause, -, -, -, hfate⟩ |
    ⟨m', types, -, htypes, hfate⟩ <;> rw [hfate] at h <;> cases h
  exact ⟨types, htypes⟩

/-! ### The scan of what could be opened -/

theorem openCandidates_cons (entry : String × ByteArray) (found : List (String × ByteArray)) :
    openCandidates headers? (entry :: found) =
      ((openCandidate headers? entry).toOption.toList ++ (openCandidates headers? found).1,
        (openCandidates.failureOf? (openCandidate headers? entry)).toList ++
          (openCandidates headers? found).2) := by
  simp only [openCandidates, List.map_cons, List.filterMap_cons]
  cases openCandidate headers? entry <;> rfl

/-- Candidates that cannot be opened are reported in their order. -/
theorem openCandidates_snd (found : List (String × ByteArray)) :
    (openCandidates headers? found).2 =
      found.filterMap fun entry => (fate headers? entry).unopened? := by
  induction found with
  | nil => rfl
  | cons entry found ih =>
      rw [openCandidates_cons, ih]
      rcases fate_cases headers? entry with ⟨cause, hopen, hfate⟩ | ⟨m, cause, hopen, -, -, hfate⟩ |
        ⟨m, types, hopen, -, hfate⟩ <;>
        simp [hopen, hfate, openCandidates.failureOf?, Fate.unopened?]

/-- **A scan of the modules that could be opened** finds what a scan of those finds whose types are
told, and reports the others. -/
theorem scan_opened (markers : AliasMarkers) (found : List (String × ByteArray)) :
    scan markers (openCandidates headers? found).1 =
      { scan markers (scannedModules headers? found) with
        moduleFailures := found.filterMap fun entry => (fate headers? entry).undecoded? } := by
  induction found with
  | nil => rfl
  | cons entry found ih =>
      rw [openCandidates_cons]
      rcases fate_cases headers? entry with ⟨cause, hopen, hfate⟩ |
        ⟨m, cause, hopen, hname, htypes, hfate⟩ | ⟨m, types, hopen, htypes, hfate⟩
      · simp [hopen, hfate, scannedModules, Except.toOption, Fate.scanned?, Fate.undecoded?, ih]
      · rw [hopen, Except.toOption, Option.toList_some, scan_append, scan_singleton_of_error htypes,
          ih, hname]
        simp [hfate, scannedModules, Fate.scanned?, Fate.undecoded?, Scan.append]
      · have hscanned : scannedModules headers? (entry :: found) =
            [m] ++ scannedModules headers? found := by
          simp [hfate, scannedModules, Fate.scanned?]
        rw [hopen, hscanned, Except.toOption, Option.toList_some, scan_append, scan_append,
          scan_singleton_of_ok htypes, ih]
        simp [hfate, Fate.undecoded?, Scan.append, Scan.ofTypes]

/-- Nothing is left out of a scan of modules whose types are told. -/
theorem moduleFailures_scannedModules (markers : AliasMarkers)
    (found : List (String × ByteArray)) :
    (scan markers (scannedModules headers? found)).moduleFailures = [] := by
  refine List.filterMap_eq_nil_iff.mpr fun m hm => ?_
  obtain ⟨entry, -, hentry⟩ := List.mem_filterMap.mp hm
  rcases fate_cases headers? entry with ⟨cause, -, hfate⟩ | ⟨m', cause, -, -, -, hfate⟩ |
    ⟨m', types, -, htypes, hfate⟩ <;> rw [hfate] at hentry
  · cases hentry
  · cases hentry
  · obtain rfl : m' = m := Option.some.inj hentry
    rw [Module.failure?, htypes]

/-! ### Reports by name -/

section Named

variable {found : List (String × ByteArray)} {failure? : String × ByteArray → Option ModuleFailure}
  (hfailure : ∀ entry failure, failure? entry = some failure → failure.name = entry.1)
include hfailure

/-- No report is named after a file that is no candidate. -/
theorem filter_name_eq_nil {name : String} (h : ∀ entry ∈ found, entry.1 ≠ name) :
    (found.filterMap failure?).filter (·.name = name) = [] := by
  refine List.filter_eq_nil_iff.mpr fun failure hmem => ?_
  obtain ⟨entry, hentry, heq⟩ := List.mem_filterMap.mp hmem
  rw [decide_eq_true_iff, hfailure entry failure heq]
  exact h entry hentry

/-- Among candidates of different names, the reports named after one are those on this one. -/
theorem filter_name_eq (hnames : found.Pairwise (·.1 < ·.1)) {entry : String × ByteArray}
    (h : entry ∈ found) :
    (found.filterMap failure?).filter (·.name = entry.1) = (failure? entry).toList := by
  induction found with
  | nil => cases h
  | cons first rest ih =>
      obtain ⟨hfirst, hrest⟩ := List.pairwise_cons.mp hnames
      rw [← List.singleton_append, List.filterMap_append, List.filter_append]
      rcases List.mem_cons.mp h with rfl | hmem
      · have hnil : (rest.filterMap failure?).filter (·.name = entry.1) = [] :=
          filter_name_eq_nil hfailure fun other hother heq =>
            String.lt_irrefl _ (heq ▸ hfirst other hother)
        rw [hnil, List.append_nil]
        cases hentry : failure? entry with
        | none => simp [hentry]
        | some failure => simp [hentry, hfailure entry failure hentry]
      · have hne : first.1 ≠ entry.1 := fun heq =>
          String.lt_irrefl _ (heq ▸ hfirst entry hmem)
        have hnil : ([first].filterMap failure?).filter (·.name = entry.1) = [] :=
          filter_name_eq_nil hfailure (by simpa using hne)
        rw [hnil, List.nil_append, ih hrest hmem]

end Named

/-- A candidate is reported under its own name. -/
theorem name_of_unopened? {entry : String × ByteArray} {failure : ModuleFailure}
    (h : (fate headers? entry).unopened? = some failure) : failure.name = entry.1 := by
  rcases fate_cases headers? entry with ⟨cause, -, hfate⟩ | ⟨m, cause, -, -, -, hfate⟩ |
    ⟨m, types, -, -, hfate⟩ <;> rw [hfate] at h <;> cases h
  rfl

theorem name_of_undecoded? {entry : String × ByteArray} {failure : ModuleFailure}
    (h : (fate headers? entry).undecoded? = some failure) : failure.name = entry.1 := by
  rcases fate_cases headers? entry with ⟨cause, -, hfate⟩ | ⟨m, cause, -, -, -, hfate⟩ |
    ⟨m, types, -, -, hfate⟩ <;> rw [hfate] at h <;> cases h
  rfl

/-- **The reports named after a candidate** are the one that its fate calls for, if any. -/
theorem filter_leftOut (headers? : HeaderReader) {found : List (String × ByteArray)}
    (hnames : found.Pairwise (·.1 < ·.1)) {entry : String × ByteArray} (h : entry ∈ found) :
    (leftOut headers? found).filter (·.name = entry.1) =
      (fate headers? entry).unopened?.toList ++ (fate headers? entry).undecoded?.toList := by
  rw [leftOut, List.filter_append,
    filter_name_eq (fun _ _ => name_of_unopened?) hnames h,
    filter_name_eq (fun _ _ => name_of_undecoded?) hnames h]

/-! ### The text in which aliases appear -/

/-- The text in which an alias appears: one line, which declares a member that throws. The first
parameter, which is the context of the script, is left out. -/
def AliasMember.lineText (a : AliasMember) : String :=
  "\t\tprotected " ++ a.returnType.spelling ++ " " ++ a.name ++
    (match a.kind with
      | .callable =>
        (if a.genericParameters = [] then ""
          else "<" ++ ", ".intercalate a.genericParameters ++ ">") ++
        "(" ++ ", ".intercalate ((a.parameters.drop 1).map (·.spelling)) ++ ")"
      | .property => "") ++
    " => throw new System.NotSupportedException();\n"

/-- The text in which the aliases of a class appear: a region that is named after the class. -/
def ContainerAliases.regionText (k : ContainerAliases) : String :=
  "#region " ++ k.name ++ "\n" ++ String.join (k.aliases.map (·.lineText)) ++ "#endregion\n"

theorem AliasMember.declaration_append (a : AliasMember) : a.declaration ++ "\n" = a.lineText := by
  have hend : memberBody ++ "\n" = " => throw new System.NotSupportedException();\n" := by decide
  have happend (head : String) : head ++ memberBody ++ "\n" =
      head ++ " => throw new System.NotSupportedException();\n" := by
    rw [String.append_assoc, hend]
  exact happend _

/-- The lines of a class with aliases are its region. -/
theorem ContainerAliases.join_lines (k : ContainerAliases) :
    String.join (k.lines.map (· ++ "\n")) = k.regionText := by
  have hend : "#endregion" ++ "\n" = "#endregion\n" := by decide
  have hdeclarations : (k.aliases.map (·.declaration)).map (· ++ "\n") =
      k.aliases.map (·.lineText) := by
    rw [List.map_map]
    exact List.map_congr_left fun a _ => a.declaration_append
  rw [lines, List.map_append, List.map_append, String.join_append, String.join_append,
    hdeclarations, List.map_singleton, List.map_singleton, hend, regionText]
  simp only [String.join_cons, String.join_nil, String.append_empty]

/-- The regions of a part of a catalog stand in one piece in the text of the whole. -/
theorem SourceFile.exists_text_eq (f : SourceFile) (front middle back : List ContainerAliases) :
    ∃ before after, f.text (front ++ middle ++ back) =
      before ++ String.join (middle.map (·.regionText)) ++ after := by
  have hmiddle : String.join ((middle.flatMap (·.lines)).map (· ++ "\n")) =
      String.join (middle.map (·.regionText)) := by
    induction middle with
    | nil => rfl
    | cons k middle ih =>
        rw [List.flatMap_cons, List.map_append, String.join_append, k.join_lines, ih,
          List.map_cons, String.join_cons]
  refine ⟨String.join ((banner ++ [""] ++ (if f.emitUsings then usingLines (referencedNamespaces
      (front ++ middle ++ back)) else []) ++ f.opening ++ front.flatMap (·.lines)).map (· ++ "\n")),
    String.join ((back.flatMap (·.lines) ++ SourceFile.closing).map (· ++ "\n")), ?_⟩
  rw [← hmiddle, ← String.join_append, ← String.join_append, ← List.map_append, ← List.map_append,
    text, lines, List.flatMap_append, List.flatMap_append]
  simp only [List.append_assoc]

namespace Config

/-- **Every module whose types are told has its aliases in the text**: the regions of its static
classes with an alias, in order and in one piece. -/
theorem exists_stubs_eq (c : Config) {modules : List Module} {m : Module}
    {types : List TypeDefinition} (h : m ∈ modules) (htypes : m.types = .ok types) :
    ∃ catalog before after,
      List.Forall₂ c.markers.EntryOf (types.filter (c.markers.HasEntry ·)) catalog ∧
        c.stubs (scan c.markers modules) =
          before ++ String.join (catalog.map (·.regionText)) ++ after := by
  obtain ⟨front, back, rfl⟩ := List.append_of_mem h
  have hcatalog : (scan c.markers (front ++ m :: back)).catalog =
      (scan c.markers front).catalog ++ (Scan.ofTypes c.markers types).catalog ++
        (scan c.markers back).catalog := by
    rw [← List.singleton_append, ← List.append_assoc, scan_append, scan_append,
      scan_singleton_of_ok htypes]
    rfl
  obtain ⟨before, after, htext⟩ := c.sourceFile.exists_text_eq (scan c.markers front).catalog
    (Scan.ofTypes c.markers types).catalog (scan c.markers back).catalog
  refine ⟨_, before, after, c.markers.entryOf_catalog types, ?_⟩
  rw [stubs, hcatalog, htext]

/-! ### Every candidate is accounted for -/

/-- What a run does about one candidate. A scanned one is not reported, and the output has a region
for each of its static classes with an alias, where every method that is one has its line. Any other
candidate is reported exactly once, under its name and with the reason. -/
def AccountsFor (c : Config) (headers? : HeaderReader) (r : Report) (left : FileTree)
    (entry : String × ByteArray) : Prop :=
  match fate headers? entry with
  | .scanned m =>
    r.skippedModules.filter (·.name = entry.1) = [] ∧
      ∃ types catalog before after, m.types = .ok types ∧
        List.Forall₂ c.markers.EntryOf (types.filter (c.markers.HasEntry ·)) catalog ∧
        left.lookup? c.outputPath =
          some (.file (before ++ String.join (catalog.map (·.regionText)) ++ after).toUTF8)
  | .unopened failure | .undecoded failure =>
    failure.name = entry.1 ∧ r.skippedModules.filter (·.name = entry.1) = [failure]

/-- A run from the tree `t` **accounts for every candidate** in `found`: it does what a run over the
scanned modules alone does, and reports all others. -/
structure Accounts (c : Config) (headers? : HeaderReader) (t : FileTree)
    (found : List (String × ByteArray)) (r : Report) (left : FileTree) : Prop where
  generateFrom_eq : c.generateFrom (scannedModules headers? found) t =
    (.ok { r with skippedModules := [] }, left)
  skippedModules_eq : r.skippedModules = leftOut headers? found
  accountsFor : ∀ entry ∈ found, c.AccountsFor headers? r left entry

variable {c : Config} {t left : FileTree} {r : Report} {found : List (String × ByteArray)}

/-- A module that is scanned has its aliases in the output. -/
theorem Accounts.exists_lookup?_eq (h : c.Accounts headers? t found r left)
    {entry : String × ByteArray} (hentry : entry ∈ found) {m : Module}
    (hfate : fate headers? entry = .scanned m) {types : List TypeDefinition}
    (htypes : m.types = .ok types) :
    ∃ catalog before after,
      List.Forall₂ c.markers.EntryOf (types.filter (c.markers.HasEntry ·)) catalog ∧
        left.lookup? c.outputPath =
          some (.file (before ++ String.join (catalog.map (·.regionText)) ++ after).toUTF8) := by
  have haccounts := h.accountsFor entry hentry
  rw [AccountsFor, hfate] at haccounts
  obtain ⟨-, types', catalog, before, after, htypes', hentries, hlookup⟩ := haccounts
  obtain rfl : types' = types := Except.ok.inj (htypes'.symm.trans htypes)
  exact ⟨catalog, before, after, hentries, hlookup⟩

/-- The modules that could be opened have the text of those that are scanned. -/
theorem stubs_opened (c : Config) (found : List (String × ByteArray)) :
    c.stubs (scan c.markers (openCandidates headers? found).1) =
      c.stubs (scan c.markers (scannedModules headers? found)) := by
  rw [scan_opened]
  rfl

/-- What a run over the scanned modules reports. -/
theorem report_scannedModules (c : Config) (found : List (String × ByteArray)) :
    c.report (scan c.markers (scannedModules headers? found)) =
      { c.report (scan c.markers (openCandidates headers? found).1) with
        skippedModules := [] } := by
  rw [scan_opened]
  simp only [report, moduleFailures_scannedModules]

/-- **A run over a directory is one over the modules that are scanned**, with a report on the other
candidates. -/
theorem generate_eq_ok_iff_scannedModules {directory : FilePath} :
    c.generate headers? directory t = (.ok r, left) ↔ ∃ found, t.candidates directory = .ok found ∧
      c.generateFrom (scannedModules headers? found) t =
        (.ok { r with skippedModules := [] }, left) ∧
      r.skippedModules = leftOut headers? found := by
  have hleftOut (found : List (String × ByteArray)) : leftOut headers? found =
      (openCandidates headers? found).2 ++
        (scan c.markers (openCandidates headers? found).1).moduleFailures := by
    rw [openCandidates_snd, scan_opened]
    rfl
  rw [generate_eq_ok_iff]
  constructor
  · rintro ⟨found, bare, hfound, hrun, rfl⟩
    obtain ⟨hwrite, rfl⟩ := generateFrom_eq_ok_iff.mp hrun
    rw [stubs_opened] at hwrite
    exact ⟨found, hfound, generateFrom_eq_ok_iff.mpr ⟨hwrite, (report_scannedModules c found).symm⟩,
      (hleftOut found).symm⟩
  · rintro ⟨found, hfound, hrun, hskipped⟩
    obtain ⟨hwrite, hreport⟩ := generateFrom_eq_ok_iff.mp hrun
    rw [← stubs_opened] at hwrite
    refine ⟨found, _, hfound, generateFrom_eq_ok_iff.mpr ⟨hwrite, rfl⟩, ?_⟩
    rw [report_scannedModules] at hreport
    have hr := congrArg (fun bare : Report => { bare with skippedModules := r.skippedModules })
      hreport
    refine hr.trans ?_
    rw [hskipped, hleftOut]
    rfl

/-- **Every candidate is accounted for once.** -/
theorem accounts_of_generate {directory : FilePath} (hfound : t.candidates directory = .ok found)
    (h : c.generate headers? directory t = (.ok r, left)) : c.Accounts headers? t found r left := by
  obtain ⟨found', hfound', hrun, hskipped⟩ := generate_eq_ok_iff_scannedModules.mp h
  obtain rfl : found' = found := Except.ok.inj (hfound'.symm.trans hfound)
  obtain ⟨hwrite, -⟩ := generateFrom_eq_ok_iff.mp hrun
  obtain ⟨place, -, -, rfl⟩ := candidates_eq_ok_iff.mp hfound
  refine ⟨hrun, hskipped, fun entry hentry => ?_⟩
  have hreports := filter_leftOut headers? (t.pairwise_libraries place) hentry
  rw [← hskipped] at hreports
  unfold AccountsFor
  cases hfate : fate headers? entry with
  | unopened failure =>
      rw [hfate] at hreports
      exact ⟨name_of_unopened? (by rw [hfate]; rfl), hreports⟩
  | undecoded failure =>
      rw [hfate] at hreports
      exact ⟨name_of_undecoded? (by rw [hfate]; rfl), hreports⟩
  | scanned m =>
      rw [hfate] at hreports
      refine ⟨hreports, ?_⟩
      have hmem : m ∈ scannedModules headers? (t.libraries place) :=
        List.mem_filterMap.mpr ⟨entry, hentry, by rw [hfate]; rfl⟩
      obtain ⟨types, htypes⟩ := types_of_scanned hfate
      obtain ⟨catalog, before, after, hentries, htext⟩ := c.exists_stubs_eq hmem htypes
      rw [htext] at hwrite
      exact ⟨types, catalog, before, after, htypes, hentries, lookup?_of_write hwrite⟩

end Config

/-! ### Broken candidates -/

namespace FileTree

/-- Nothing stands at the place of a candidate, or a file that is not scanned. -/
def IsBroken (headers? : HeaderReader) (name : String) (stood? : Option Entry) : Prop :=
  ∀ entry, stood? = some entry →
    ∃ bytes, entry = .file bytes ∧ (fate headers? (name, bytes)).scanned? = none

/-- Two trees **differ in broken candidates** of the directory at `dir` only: some stand in one tree
and not in the other one, or are broken in another way. -/
def DiffersInBroken (headers? : HeaderReader) (dir : List String) (t t' : FileTree) : Prop :=
  ∀ place, t'.get? place = t.get? place ∨
    ∃ name, place = dir ++ [name] ∧ isLibraryName name = true ∧
      IsBroken headers? name (t.get? place) ∧ IsBroken headers? name (t'.get? place)

variable {dir : List String} {t t' : FileTree} {p : FilePath}

namespace DiffersInBroken

theorem symm (h : DiffersInBroken headers? dir t t') : DiffersInBroken headers? dir t' t := by
  intro place
  rcases h place with heq | ⟨name, hplace, hname, hbroken, hbroken'⟩
  · exact .inl heq.symm
  · exact .inr ⟨name, hplace, hname, hbroken', hbroken⟩

/-- A directory is no candidate, so both trees have the same ones. -/
theorem sameDirectories (h : DiffersInBroken headers? dir t t') : SameDirectories t t' := by
  intro place
  rcases h place with heq | ⟨name, -, -, hbroken, hbroken'⟩
  · rw [heq]
  · constructor
    · intro hget
      obtain ⟨bytes, heq, -⟩ := hbroken' _ hget
      cases heq
    · intro hget
      obtain ⟨bytes, heq, -⟩ := hbroken _ hget
      cases heq

/-- A candidate that is scanned stands in both trees. -/
theorem mem_libraries_of_scanned (h : DiffersInBroken headers? dir t t')
    {entry : String × ByteArray} (hmem : entry ∈ t.libraries dir)
    (hscanned : (fate headers? entry).scanned?.isSome = true) :
    entry ∈ t'.libraries dir := by
  obtain ⟨hname, hget⟩ := mem_libraries_iff.mp hmem
  rcases h (dir ++ [entry.1]) with heq | ⟨name, hplace, -, hbroken, -⟩
  · exact mem_libraries_iff.mpr ⟨hname, heq.trans hget⟩
  · obtain ⟨-, hlast⟩ := List.append_inj' hplace rfl
    obtain ⟨bytes, heq, hnone⟩ := hbroken _ hget
    cases heq
    rw [← (List.cons.inj hlast).1, Prod.mk.eta] at hnone
    rw [hnone] at hscanned
    cases hscanned

/-- **The scanned modules are the same** in both trees. -/
theorem scannedModules_eq (h : DiffersInBroken headers? dir t t') :
    scannedModules headers? (t'.libraries dir) = scannedModules headers? (t.libraries dir) := by
  have hfilter (found : List (String × ByteArray)) : scannedModules headers? found =
      scannedModules headers?
        (found.filter fun entry => (fate headers? entry).scanned?.isSome) := by
    rw [scannedModules, scannedModules, List.filterMap_filter]
    refine List.filterMap_congr fun entry _ => ?_
    cases (fate headers? entry).scanned? <;> rfl
  rw [hfilter, hfilter (t.libraries dir)]
  refine congrArg (scannedModules headers?) (eq_of_pairwise_name
    ((t'.pairwise_libraries dir).filter _) ((t.pairwise_libraries dir).filter _) fun entry => ?_)
  rw [List.mem_filter, List.mem_filter]
  exact and_congr_left fun hscanned =>
    ⟨fun hmem => h.symm.mem_libraries_of_scanned hmem hscanned,
      fun hmem => h.mem_libraries_of_scanned hmem hscanned⟩

/-- No candidate stands where the text of a path is gathered, so this place is the same in both
trees. -/
theorem get?_temporary_eq (h : DiffersInBroken headers? dir t t') {beside : List String}
    (hfollow : t.follow (temporary p) = .ok beside) : t'.get? beside = t.get? beside := by
  rcases h beside with heq | ⟨name, hbeside, hname, -, -⟩
  · exact heq
  · rw [hbeside] at hfollow
    exact absurd hfollow (follow_temporary_ne hname)

theorem filePlace?_temporary_eq (h : DiffersInBroken headers? dir t t') :
    t'.filePlace? (temporary p) = t.filePlace? (temporary p) := by
  unfold filePlace?
  cases hfollow : t.follow (temporary p) with
  | ok beside =>
      simp only [h.sameDirectories.follow_eq_ok_iff.mpr hfollow, h.get?_temporary_eq hfollow]
  | error e =>
      cases hfollow' : t'.follow (temporary p) with
      | error e' => rfl
      | ok beside =>
          rw [h.sameDirectories.follow_eq_ok_iff.mp hfollow'] at hfollow
          cases hfollow

/-- **A write of the same text** leaves trees that differ as those before it did. -/
theorem of_write (h : DiffersInBroken headers? dir t t') {left left' : FileTree} {bytes : ByteArray}
    (hwrite : t.write p bytes = (.ok (), left)) (hwrite' : t'.write p bytes = (.ok (), left')) :
    DiffersInBroken headers? dir left left' := by
  intro place
  by_cases hlocate : t.locate p = .ok place
  · have hlocate' := h.sameDirectories.locate_eq_ok_iff.mpr hlocate
    exact .inl ((get?_of_write hwrite' hlocate').trans (get?_of_write hwrite hlocate).symm)
  · have hlocate' : t'.locate p ≠ .ok place := fun heq =>
      hlocate (h.sameDirectories.locate_eq_ok_iff.mp heq)
    have hget := get?_write t p bytes hlocate
    have hget' := get?_write t' p bytes hlocate'
    rw [hwrite] at hget
    rw [hwrite', h.filePlace?_temporary_eq] at hget'
    rw [hget, hget']
    split
    · exact .inl rfl
    · exact h place

end DiffersInBroken

end FileTree

/-! ### Main result -/

/-- **Broken candidates are isolated.** A run that succeeds accounts for every candidate, and
whatever broken candidates are added to the directory or taken away from it, the run does the same,
except for what it reports of them. -/
theorem Config.generate_isolates_broken (c : Config) (headers? : HeaderReader)
    (directory : FilePath) (t : FileTree) {r : Report} {left : FileTree}
    (h : c.generate headers? directory t = (.ok r, left)) :
    ∃ dir found, t.locate directory = .ok dir ∧ t.candidates directory = .ok found ∧
      found.Pairwise (·.1 < ·.1) ∧
      (∀ name bytes, (name, bytes) ∈ found ↔
        isLibraryName name = true ∧ t.get? (dir ++ [name]) = some (.file bytes)) ∧
      c.Accounts headers? t found r left ∧
      ∀ t', DiffersInBroken headers? dir t t' → ∃ skipped left',
        c.generate headers? directory t' = (.ok { r with skippedModules := skipped }, left') ∧
        left'.lookup? c.outputPath = left.lookup? c.outputPath ∧
        DiffersInBroken headers? dir left left' := by
  obtain ⟨found, hfound, hrun, -⟩ := generate_eq_ok_iff_scannedModules.mp h
  have haccounts := accounts_of_generate hfound h
  obtain ⟨dir, hlocate, hget, rfl⟩ := candidates_eq_ok_iff.mp hfound
  refine ⟨dir, t.libraries dir, hlocate, hfound, t.pairwise_libraries dir,
    fun name bytes => mem_libraries_iff, haccounts, fun t' hdiffers => ?_⟩
  have hdirs := hdiffers.sameDirectories
  have hfound' : t'.candidates directory = .ok (t'.libraries dir) :=
    candidates_eq_ok_iff.mpr ⟨dir, hdirs.locate_eq_ok_iff.mpr hlocate, (hdirs dir).mpr hget, rfl⟩
  obtain ⟨hwrite, hreport⟩ := generateFrom_eq_ok_iff.mp hrun
  obtain ⟨left', hwrite'⟩ := (write_eq_ok_iff
    (c.stubs (scan c.markers (scannedModules headers? (t.libraries dir)))).toUTF8).mpr
    ((writable_of_write hwrite).of_sameDirectories hdirs)
  refine ⟨leftOut headers? (t'.libraries dir), left', ?_,
    (lookup?_of_write hwrite').trans (lookup?_of_write hwrite).symm,
    hdiffers.of_write hwrite hwrite'⟩
  refine generate_eq_ok_iff_scannedModules.mpr ⟨_, hfound', ?_, rfl⟩
  rw [hdiffers.scannedModules_eq]
  exact generateFrom_eq_ok_iff.mpr ⟨hwrite', hreport⟩

/-- The one alias of the sample, as its marked method calls for it. -/
theorem eq_of_aliasOf_sample {a : AliasMember}
    (h : Config.crowdedConfig.markers.AliasOf
      (sampleMethod [⟨"Attributes", "Marker"⟩, ⟨"Attributes", "Marker"⟩]) a) :
    a = ⟨"Run", .callable, [], .primitive .void, []⟩ := by
  obtain ⟨name, kind, parameters, returnType, genericParameters⟩ := a
  obtain ⟨rfl, rfl, rfl, rfl, marker, ⟨before, after, hattributes, -, -⟩, rfl⟩ := h
  have hmem : marker ∈ before ++ marker :: after := List.mem_append_right _ List.mem_cons_self
  rw [← hattributes] at hmem
  have hmarker : marker = ⟨"Attributes", "Marker"⟩ := by simpa [sampleMethod] using hmem
  rw [hmarker]
  rfl

/-- The region of the class in the sample, with the line of its alias. -/
theorem regionText_sample {catalog : List ContainerAliases}
    (h : List.Forall₂ Config.crowdedConfig.markers.EntryOf
      (sampleDefinitions.filter (Config.crowdedConfig.markers.HasEntry ·)) catalog) :
    String.join (catalog.map (·.regionText)) = "#region Tool\n" ++
      "\t\tprotected void Run() => throw new System.NotSupportedException();\n#endregion\n" := by
  have hentries : sampleDefinitions.filter (Config.crowdedConfig.markers.HasEntry ·) =
      [⟨"", "Tool", ⟨false, true, true⟩,
        [sampleMethod [⟨"Attributes", "Marker"⟩, ⟨"Attributes", "Marker"⟩]]⟩] := rfl
  rw [hentries] at h
  obtain ⟨k, rest, hentry, hrest, rfl⟩ := List.forall₂_cons_left_iff.mp h
  obtain rfl := List.forall₂_nil_left_iff.mp hrest
  obtain ⟨ns, name, aliases⟩ := k
  obtain ⟨rfl, rfl, haliases, -⟩ := hentry
  obtain ⟨a, rest, halias, hrest, rfl⟩ := List.forall₂_cons_left_iff.mp haliases
  obtain rfl := List.forall₂_nil_left_iff.mp hrest
  rw [eq_of_aliasOf_sample halias]
  decide +kernel

/-- The run over `crowdedTree` writes the alias of the assembly, and does so too without the file
that is none. -/
theorem Config.generate_isolates_broken_crowded :
    (crowdedConfig.generate .portable ⟨"in"⟩ crowdedTree).1 = .ok crowdedReport ∧
    (∃ before after,
      (crowdedConfig.generate .portable ⟨"in"⟩ crowdedTree).2.lookup? ⟨"in/out.cs"⟩ =
        some (.file (before ++ ("#region Tool\n" ++
          "\t\tprotected void Run() => throw new System.NotSupportedException();\n#endregion\n") ++
          after).toUTF8)) ∧
    DiffersInBroken .portable ["in"] crowdedTree (crowdedTree.erase ["in", "Broken.dll"]) ∧
    ∃ skipped left',
      crowdedConfig.generate .portable ⟨"in"⟩ (crowdedTree.erase ["in", "Broken.dll"]) =
        (.ok { crowdedReport with skippedModules := skipped }, left') := by
  have hdiffers : DiffersInBroken .portable ["in"] crowdedTree
      (crowdedTree.erase ["in", "Broken.dll"]) := by
    intro place
    have hget := get?_erase_of_ne_nil (t := crowdedTree)
      (List.cons_ne_nil "in" ["Broken.dll"]) place
    by_cases hplace : place = ["in", "Broken.dll"]
    · refine .inr ⟨"Broken.dll", hplace, by decide, fun entry hentry => ?_, fun entry hentry => ?_⟩
      · rw [hplace] at hentry
        obtain rfl : .file brokenBytes = entry := Option.some.inj hentry
        exact ⟨brokenBytes, rfl, congrArg Fate.scanned? (fate_of_error ofImage_broken)⟩
      · rw [hget, if_pos hplace] at hentry
        cases hentry
    · exact .inl (hget.trans (if_neg hplace))
  have hfate : fate .portable ("Tool.dll", Image.wrap sampleBytes) =
      .scanned ⟨"Tool.dll", .ok sampleDefinitions⟩ :=
    (fate_of_types_ok ofImage_tool types_sample).trans
      (congrArg (fun types => Fate.scanned ⟨"Tool.dll", types⟩) types_sample)
  obtain ⟨dir, found, hlocate, hfound, -, -, haccounts, hsame⟩ := generate_isolates_broken
    crowdedConfig .portable ⟨"in"⟩ crowdedTree (Prod.ext generate_crowdedTree rfl)
  obtain rfl : ["in"] = dir := Except.ok.inj (Eq.trans (by decide) hlocate)
  obtain rfl : [("Broken.dll", brokenBytes), ("Tool.dll", Image.wrap sampleBytes)] = found :=
    Except.ok.inj (candidates_crowdedTree.symm.trans hfound)
  have hmem : ("Tool.dll", Image.wrap sampleBytes) ∈
      [("Broken.dll", brokenBytes), ("Tool.dll", Image.wrap sampleBytes)] :=
    List.mem_cons_of_mem _ (List.mem_singleton_self _)
  obtain ⟨catalog, before, after, hentries, hlookup⟩ := haccounts.exists_lookup?_eq hmem hfate rfl
  rw [regionText_sample hentries] at hlookup
  obtain ⟨skipped, left', hrun, -, -⟩ := hsame _ hdiffers
  exact ⟨generate_crowdedTree, ⟨before, after, hlookup⟩, hdiffers, skipped, left', hrun⟩

end AliasStubs
