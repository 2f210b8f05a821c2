/-
The stack as the tool lists it, beside the stack of the brain.

The brain goes through the dependencies, then through those of development; the
tool merges the two first.  The later parts of both lists are appended marker by
marker, and the names of the later part tell where it begins.
-/

import Mneme.Mcp.Identity

namespace Mneme.Mcp.Identity

open Library Common Common.Skills Common.Identity

/-- The name and the version of a technology. -/
def label (tech : Technology) : String × Option Chars :=
  (tech.name, tech.version)

/-- A dependency in one section of a parsed manifest. -/
def dependency (value : Json) (part : String) (probe : JsProbe) : Option Json :=
  (member value part).bind (member · probe.dep)

/-! ### Versions -/

/-- The brain's version of one value is the tool's version of another. -/
def VersionAlike (engine : Engine) : Json → Json → Prop
  | .string first, .string second =>
      second ≠ "" ∧ first.toList.dropWhile Brain.Identity.isMark = dropMark second.toList
  | .string _, _ => False
  | _, .string second => second = ""
  | _, .null => False
  | _, .array items => items = []
  | _, .object fields =>
      ∀ length, fields.lookup "length" = some length → engine.exceedsZero length = false
  | _, _ => True

variable (engine : Engine)

theorem versionOf_iff (first second : Json) :
    versionOf engine second = some (Brain.Identity.versionOf first) ↔
      VersionAlike engine first second := by
  have text_none : ∀ text : String, (some (if text = "" then none else
      some (dropMark text.toList)) = some (none : Option Chars)) ↔ text = "" := by
    intro text
    by_cases empty : text = "" <;> simp [empty]
  have object_none : ∀ fields : List (String × Json),
      versionOf engine (.object fields) = some none ↔
        ∀ length, fields.lookup "length" = some length → engine.exceedsZero length = false := by
    intro fields
    simp only [versionOf]
    split
    · next absent => simp [absent]
    · next length given => simp [given]
  have object_some : ∀ fields : List (String × Json), ∀ chars : Chars,
      versionOf engine (.object fields) ≠ some (some chars) := by
    intro fields chars
    simp only [versionOf]
    split
    · simp
    · split <;> simp
  cases first with
  | string text =>
      cases second with
      | string other =>
          unfold versionOf Brain.Identity.versionOf VersionAlike
          by_cases empty : other = ""
          · simp [empty]
          · simp only [empty, if_false, Option.some.injEq, ne_eq, not_false_eq_true, true_and]
            exact eq_comm
      | object fields => exact iff_of_false (object_some fields _) id
      | _ => simp [versionOf, Brain.Identity.versionOf, VersionAlike]
  | _ =>
      cases second with
      | string other => exact text_none other
      | object fields => exact object_none fields
      | _ => simp [versionOf, Brain.Identity.versionOf, VersionAlike]

/-- A probed dependency is absent, or has the same version for both. -/
def EntryAlike (engine : Engine) : Option Json → Option Json → Prop
  | none, none => True
  | some value, none => VersionAlike engine value value
  | none, some value => VersionAlike engine value value
  | some value, some development => VersionAlike engine value development

theorem entryAlike_iff (value : Json) (development : Option Json) :
    EntryAlike engine (some value) development ↔
      versionOf engine (development.getD value) = some (Brain.Identity.versionOf value) := by
  cases development with
  | none => exact (versionOf_iff engine value value).symm
  | some other => exact (versionOf_iff engine value other).symm

/-! ### Probes -/

section Probes

variable (engine : Engine) (deps devDeps : JsProbe → Option Json)

/-- The entries of one section, except those known before. -/
def sectionEntries (known : JsProbe → Bool) (found : JsProbe → Option Json)
    (probes : List JsProbe) : List Technology :=
  probes.filterMap fun probe =>
    if known probe then none
    else (found probe).map fun value => probe.technology (Brain.Identity.versionOf value)

/-- The entries of the tool, up to a version that throws. -/
def listedEntries : List JsProbe → List Technology
  | [] => []
  | probe :: rest =>
      match (devDeps probe).or (deps probe) with
      | none => listedEntries rest
      | some raw =>
          match versionOf engine raw with
          | none => []
          | some version => probe.technology version :: listedEntries rest

variable {probes : List JsProbe}

variable {found : JsProbe → Option Json}

variable {known : JsProbe → Bool}

theorem sectionEntries_names
    {tech : Technology} (member : tech ∈ sectionEntries known found probes) :
    ∃ probe ∈ probes, tech.name = probe.name ∧ known probe = false ∧ found probe ≠ none := by
  obtain ⟨probe, inside, entry⟩ := List.mem_filterMap.mp member
  split at entry
  · cases entry
  · next fresh =>
      obtain ⟨value, present, same⟩ := Option.map_eq_some_iff.mp entry
      subst same
      refine ⟨probe, inside, rfl, by simpa using fresh, ?_⟩
      rw [present]
      exact Option.some_ne_none _

theorem listedEntries_names {tech : Technology}
    (member : tech ∈ listedEntries engine deps devDeps probes) :
    ∃ probe ∈ probes, tech.name = probe.name := by
  induction probes with
  | nil => cases member
  | cons probe rest ih =>
      have later : tech ∈ listedEntries engine deps devDeps rest →
          ∃ other ∈ probe :: rest, tech.name = other.name := by
        intro inside
        obtain ⟨other, among, same⟩ := ih inside
        exact ⟨other, List.mem_cons_of_mem _ among, same⟩
      unfold listedEntries at member
      split at member
      · exact later member
      · split at member
        · cases member
        · cases member with
          | head => exact ⟨probe, List.mem_cons_self, rfl⟩
          | tail _ inside => exact later inside

theorem sectionEntries_cons (known : JsProbe → Bool) (found : JsProbe → Option Json)
    (probe : JsProbe) (rest : List JsProbe) :
    sectionEntries known found (probe :: rest) =
      (if known probe then none else (found probe).map fun value =>
          probe.technology (Brain.Identity.versionOf value)).toList ++
        sectionEntries known found rest := by
  unfold sectionEntries
  rw [List.filterMap_cons]
  split
  · next absent => rw [absent]; rfl
  · next present => rw [present]; rfl

theorem sectionEntries_nil_iff :
    sectionEntries (fun _ => false) found probes = [] ↔
      ∀ probe ∈ probes, found probe = none := by
  unfold sectionEntries
  simp [List.filterMap_eq_nil_iff]

/-- The two sections one after the other are the merged section in order, exactly
where each version is alike and no development dependency is probed before a
dependency. -/
theorem entries_agree_iff (distinct : (probes.map JsProbe.name).Nodup) :
    (sectionEntries (fun _ => false) deps probes ++
        sectionEntries (fun probe => (deps probe).isSome) devDeps probes).map label =
      (listedEntries engine deps devDeps probes).map label ↔
    (∀ probe ∈ probes, EntryAlike engine (deps probe) (devDeps probe)) ∧
      probes.Pairwise (fun first second =>
        deps first = none → devDeps first ≠ none → deps second = none) := by
  induction probes with
  | nil => simp [sectionEntries, listedEntries]
  | cons probe rest ih =>
      rw [List.map_cons, List.nodup_cons] at distinct
      specialize ih distinct.2
      -- The name of this probe is not among the later ones.
      have fresh : ∀ tech : Technology, (∃ other ∈ rest, tech.name = other.name) →
          tech.name ≠ probe.name := by
        intro tech ⟨other, inside, same⟩ equal
        exact distinct.1 (List.mem_map.mpr ⟨other, inside, (same.symm.trans equal)⟩)
      rw [List.forall_mem_cons, List.pairwise_cons, sectionEntries_cons, sectionEntries_cons]
      unfold listedEntries
      cases here : deps probe with
      | some value =>
          rw [entryAlike_iff]
          have merged : (devDeps probe).or (some value) = some ((devDeps probe).getD value) := by
            cases devDeps probe <;> rfl
          have ordered : ∀ second ∈ rest, some value = none → devDeps probe ≠ none →
              deps second = none := fun _ _ absent => absurd absent (Option.some_ne_none _)
          rw [merged]
          dsimp only
          cases versionOf engine ((devDeps probe).getD value) with
          | none => simp
          | some version =>
              rw [and_iff_right ordered, and_assoc, ← ih]
              simp [label, JsProbe.technology, eq_comm]
      | none =>
          cases development : devDeps probe with
          | none =>
              have alike : EntryAlike engine none none := trivial
              have ordered : ∀ second ∈ rest, (none : Option Json) = none →
                  (none : Option Json) ≠ none → deps second = none :=
                fun _ _ _ absent => absurd rfl absent
              rw [and_iff_right alike, and_iff_right ordered, ← ih]
              rfl
          | some value =>
              have alike : EntryAlike engine none (some value) ↔
                  versionOf engine value = some (Brain.Identity.versionOf value) :=
                (versionOf_iff engine value value).symm
              rw [alike]
              by_cases early : ∀ second ∈ rest, deps second = none
              · have empty := sectionEntries_nil_iff.mpr early
                have ordered : ∀ second ∈ rest, (none : Option Json) = none →
                    some value ≠ none → deps second = none :=
                  fun second inside _ _ => early second inside
                rw [empty, List.nil_append] at ih
                rw [empty, and_iff_right ordered]
                dsimp only [Option.or]
                cases versionOf engine value with
                | none => simp
                | some version =>
                    rw [and_assoc, ← ih]
                    simp [label, JsProbe.technology, eq_comm]
              · -- A later dependency stands first for the brain, this one for the tool.
                apply iff_of_false
                · intro same
                  cases entries : sectionEntries (fun _ => false) deps rest with
                  | nil => exact early (sectionEntries_nil_iff.mp entries)
                  | cons tech others =>
                      have inside : tech ∈ sectionEntries (fun _ => false) deps rest := by
                        rw [entries]
                        exact List.mem_cons_self
                      obtain ⟨other, among, name, _⟩ := sectionEntries_names inside
                      have apart := fresh tech ⟨other, among, name⟩
                      rw [entries] at same
                      dsimp only [Option.or] at same
                      cases read : versionOf engine value with
                      | none => simp [read] at same
                      | some version =>
                          rw [read] at same
                          exact apart (congrArg Prod.fst (List.cons.inj same).1)
                · intro both
                  exact early (fun second inside =>
                    both.2.1 second inside rfl (Option.some_ne_none _))

theorem fold_section {out : List Technology} (distinct : (probes.map JsProbe.name).Nodup)
    (listed : ∀ probe ∈ probes, probe.name ∈ out.map Technology.name ↔ known probe = true) :
    probes.foldl
        (fun out probe =>
          match found probe with
          | none => out
          | some value =>
              pushUnique out (probe.technology (Brain.Identity.versionOf value)))
        out =
      out ++ sectionEntries known found probes := by
  induction probes generalizing out with
  | nil => simp [sectionEntries]
  | cons probe rest ih =>
      rw [List.map_cons, List.nodup_cons] at distinct
      have here := listed probe List.mem_cons_self
      have others := fun other inside => listed other (List.mem_cons_of_mem _ inside)
      rw [List.foldl_cons, sectionEntries_cons]
      cases given : found probe with
      | none =>
          dsimp only
          rw [ih distinct.2 others]
          simp
      | some value =>
          dsimp only
          by_cases old : known probe = true
          · have before : (probe.technology (Brain.Identity.versionOf value)).name ∈
                out.map Technology.name := here.mpr old
            rw [pushUnique_known before, if_pos old, ih distinct.2 others]
            rfl
          · have after : (probe.technology (Brain.Identity.versionOf value)).name ∉
                out.map Technology.name := fun inside => old (here.mp inside)
            rw [pushUnique_fresh after, if_neg old, ih distinct.2]
            · simp
            · intro other inside
              have apart : other.name ≠ probe.name := by
                intro equal
                exact distinct.1 (List.mem_map.mpr ⟨other, inside, equal⟩)
              rw [← others other inside, List.map_append, List.mem_append]
              constructor
              · intro either
                cases either with
                | inl earlier => exact earlier
                | inr last => exact absurd (List.mem_singleton.mp last) apart
              · exact Or.inl

theorem probeAll_eq (package : Json) {out : List Technology}
    (distinct : (probes.map JsProbe.name).Nodup)
    (fresh : ∀ probe ∈ probes, probe.name ∉ out.map Technology.name) :
    probeAll engine package out probes =
      out ++ listedEntries engine (dependency package "dependencies")
        (dependency package "devDependencies") probes := by
  induction probes generalizing out with
  | nil => exact (List.append_nil out).symm
  | cons probe rest ih =>
      rw [List.map_cons, List.nodup_cons] at distinct
      have others := fun other inside => fresh other (List.mem_cons_of_mem _ inside)
      have merged : mergedDep package probe.dep =
          (dependency package "devDependencies" probe).or
            (dependency package "dependencies" probe) := rfl
      unfold probeAll listedEntries
      rw [merged]
      cases (dependency package "devDependencies" probe).or
          (dependency package "dependencies" probe) with
      | none => exact ih distinct.2 others
      | some raw =>
          dsimp only
          cases versionOf engine raw with
          | none => exact (List.append_nil out).symm
          | some version =>
              have new : (probe.technology version).name ∉ out.map Technology.name :=
                fresh probe List.mem_cons_self
              dsimp only
              rw [pushUnique_fresh new, ih distinct.2]
              · rw [List.append_assoc, List.singleton_append]
              · intro other inside among
                rw [List.map_append, List.mem_append] at among
                cases among with
                | inl earlier => exact others other inside earlier
                | inr last =>
                    exact distinct.1
                      (List.mem_map.mpr ⟨other, inside, List.mem_singleton.mp last⟩)

end Probes

/-! ### The parts before the markers -/

theorem probes_distinct : (Brain.Identity.PROBES.map JsProbe.name).Nodup := by decide

def node : Technology :=
  ⟨"node", none, "package.json", .runtime⟩

theorem probe_not_node {probe : JsProbe} (inside : probe ∈ Brain.Identity.PROBES) :
    probe.name ∉ [node].map Technology.name := by
  revert probe
  decide

theorem detectJsFramework_eq {known : JsProbe → Bool} (value : Json) (part : String)
    {out : List Technology} (listed : ∀ probe ∈ Brain.Identity.PROBES,
      probe.name ∈ out.map Technology.name ↔ known probe = true) :
    ((member value part).map (Brain.Identity.detectJsFramework · out)).getD out =
      out ++ sectionEntries known (dependency value part) Brain.Identity.PROBES := by
  cases given : member value part with
  | none =>
      have nothing : sectionEntries known (dependency value part) Brain.Identity.PROBES = [] := by
        unfold sectionEntries dependency
        simp [given]
      rw [nothing, List.append_nil]
      rfl
  | some deps =>
      have found : dependency value part = fun probe => member deps probe.dep := by
        funext probe
        unfold dependency
        rw [given]
        rfl
      rw [found]
      exact fold_section probes_distinct listed

variable {root : Project}

theorem brain_node (fromStr : Chars → Option Json) {value : Json}
    (parsed : Brain.Identity.package fromStr root = some value)
    (present : root.has "package.json" = true) :
    Brain.Identity.detectNode fromStr root [] =
      node :: (sectionEntries (fun _ => false) (dependency value "dependencies")
          Brain.Identity.PROBES ++
        sectionEntries (fun probe => (dependency value "dependencies" probe).isSome)
          (dependency value "devDependencies") Brain.Identity.PROBES) := by
  unfold Brain.Identity.detectNode
  rw [if_pos present, parsed]
  dsimp only
  have first := @detectJsFramework_eq (fun _ => false) value "dependencies" [node]
    (fun probe inside => iff_of_false (probe_not_node inside) Bool.false_ne_true)
  have listed : ∀ probe ∈ Brain.Identity.PROBES,
      probe.name ∈ ([node] ++ sectionEntries (fun _ => false) (dependency value "dependencies")
        Brain.Identity.PROBES).map Technology.name ↔
          (dependency value "dependencies" probe).isSome = true := by
    intro probe inside
    rw [List.map_append, List.mem_append, or_iff_right (probe_not_node inside), List.mem_map,
      Option.isSome_iff_ne_none]
    constructor
    · intro ⟨tech, entry, name⟩
      obtain ⟨other, among, same, _, present⟩ := sectionEntries_names entry
      have equal : other = probe :=
        List.inj_on_of_nodup_map probes_distinct among inside (same.symm.trans name)
      rwa [equal] at present
    · intro present
      obtain ⟨version, given⟩ := Option.ne_none_iff_exists'.mp present
      refine ⟨probe.technology (Brain.Identity.versionOf version), ?_, rfl⟩
      apply List.mem_filterMap.mpr
      exact ⟨probe, inside, by rw [given]; rfl⟩
  exact (congrArg (fun out => ((member value "devDependencies").map
    (Brain.Identity.detectJsFramework · out)).getD out) first).trans
      (detectJsFramework_eq value "devDependencies" listed)

theorem tool_node {value : Json}
    (parsed : package engine root = some value) (present : root.has "package.json" = true) :
    detectNode engine root [] =
      node :: listedEntries engine (dependency value "dependencies")
        (dependency value "devDependencies") Brain.Identity.PROBES := by
  unfold detectNode
  rw [if_pos present, parsed]
  exact probeAll_eq engine value probes_distinct (fun _ inside => probe_not_node inside)

/-! ### Markers -/

variable {P : Technology → Prop}

/-- A property of every technology found so far and of the next one. -/
theorem append_all {present : Bool} {tech : Technology}
    {out : List Technology} (before : ∀ other ∈ out, P other) (here : P tech) :
    ∀ other ∈ append present tech out, P other := by
  unfold append
  split
  · intro other inside
    rcases List.mem_append.mp inside with earlier | last
    · exact before other earlier
    · rwa [List.mem_singleton.mp last]
  · exact before

theorem appendNew_all {present : Bool} {tech : Technology}
    {out : List Technology} (before : ∀ other ∈ out, P other) (here : P tech) :
    ∀ other ∈ appendNew present tech out, P other := by
  unfold appendNew pushUnique
  split
  · split
    · exact before
    · exact @append_all _ true _ _ before here
  · exact before

theorem detectCargo_all {text : Option Chars}
    {out : List Technology} (before : ∀ other ∈ out, P other)
    (rust : P ⟨"rust", none, "Cargo.toml", .language⟩)
    (tauri : P ⟨"tauri", none, "Cargo.toml", .framework⟩)
    (tokio : P ⟨"tokio", none, "Cargo.toml", .framework⟩) :
    ∀ other ∈ detectCargo root text out, P other := by
  unfold detectCargo
  split
  · exact appendNew_all (appendNew_all (@append_all _ true _ _ before rust) tauri) tokio
  · exact before

theorem mem_append_present {tech : Technology} {out : List Technology} :
    tech ∈ append true tech out :=
  List.mem_append_right out (List.mem_singleton.mpr rfl)

theorem mem_append_before {present : Bool} {tech other : Technology} {out : List Technology}
    (inside : other ∈ out) : other ∈ append present tech out := by
  unfold append
  split
  · exact List.mem_append_left _ inside
  · exact inside

variable {out others : List Technology}

variable (present : Bool)

theorem append_label (tech : Technology) (same : out.map label = others.map label) :
    (append present tech out).map label = (append present tech others).map label := by
  unfold append
  split
  · rw [List.map_append, List.map_append, same]
  · exact same

theorem names_of_label (same : out.map label = others.map label) :
    out.map Technology.name = others.map Technology.name := by
  have firsts := congrArg (List.map Prod.fst) same
  rw [List.map_map, List.map_map] at firsts
  exact firsts

theorem appendNew_label (tech : Technology) (same : out.map label = others.map label) :
    (appendNew present tech out).map label = (appendNew present tech others).map label := by
  unfold appendNew pushUnique
  rw [names_of_label same]
  split
  · split
    · exact same
    · exact append_label true tech same
  · exact same

theorem detectCargo_label (root : Project) (text : Option Chars)
    (same : out.map label = others.map label) :
    (detectCargo root text out).map label = (detectCargo root text others).map label := by
  unfold detectCargo
  split
  · exact appendNew_label _ _ (appendNew_label _ _ (append_label true _ same))
  · exact same

/-! ### Where the markers begin -/

def markerNames : List String :=
  ["bun", "deno", "rust", "python", "go", "ruby", "java", "gradle", "php", "dotnet"]

/-- A list that goes on with a technology shown by a marker. -/
def Continues (start out : List Technology) : Prop :=
  ∃ tail, out = start ++ tail ∧ ∀ tech ∈ tail.head?, tech.name ∈ markerNames

variable {start : List Technology}

theorem Continues.more {first : Technology}
    (so_far : Continues start out) (marker : first.name ∈ markerNames)
    (rest : List Technology) : Continues start (out ++ first :: rest) := by
  obtain ⟨tail, whole, head⟩ := so_far
  refine ⟨tail ++ first :: rest, ?_, ?_⟩
  · rw [whole, List.append_assoc]
  · cases tail with
    | nil =>
        intro tech same
        rw [← Option.mem_some_iff.mp same]
        exact marker
    | cons tech others => exact head

theorem Continues.append {tech : Technology} {present : Bool}
    (so_far : Continues start out) (marker : tech.name ∈ markerNames) :
    Continues start (append present tech out) := by
  unfold Identity.append
  split
  · exact so_far.more marker []
  · exact so_far

theorem Continues.appendNew {tech : Technology} {present : Bool}
    (so_far : Continues start out) (marker : tech.name ∈ markerNames) :
    Continues start (appendNew present tech out) := by
  unfold Identity.appendNew pushUnique
  split
  · split
    · exact so_far
    · exact so_far.more marker []
  · exact so_far

/-- Whatever a manifest of Cargo adds comes after the language itself. -/
theorem appendNew_suffix (tech : Technology) (out : List Technology) :
    ∃ rest, appendNew present tech out = out ++ rest := by
  unfold Identity.appendNew pushUnique
  split
  · split
    · exact ⟨[], (List.append_nil out).symm⟩
    · exact ⟨[tech], rfl⟩
  · exact ⟨[], (List.append_nil out).symm⟩

theorem Continues.detectCargo {text : Option Chars} (so_far : Continues start out) :
    Continues start (detectCargo root text out) := by
  unfold Identity.detectCargo
  split
  · dsimp only
    obtain ⟨first, added⟩ := appendNew_suffix (mentions text "tauri")
      ⟨"tauri", none, "Cargo.toml", .framework⟩
      (out ++ [⟨"rust", none, "Cargo.toml", .language⟩])
    rw [added]
    obtain ⟨second, added⟩ := appendNew_suffix (mentions text "tokio")
      ⟨"tokio", none, "Cargo.toml", .framework⟩
      (out ++ [⟨"rust", none, "Cargo.toml", .language⟩] ++ first)
    rw [added, List.append_assoc, List.append_assoc]
    exact so_far.more (by decide) (first ++ second)
  · exact so_far

theorem Continues.start_label (whole : Continues start out)
    (before : ∀ tech ∈ start, tech.name ∉ markerNames) :
    (out.map label).takeWhile (fun entry => decide (entry.1 ∉ markerNames)) =
      start.map label := by
  obtain ⟨tail, same, head⟩ := whole
  have early : ∀ entry ∈ start.map label, decide (entry.1 ∉ markerNames) = true := by
    intro entry inside
    obtain ⟨tech, among, entry_eq⟩ := List.mem_map.mp inside
    subst entry_eq
    exact decide_eq_true (before tech among)
  rw [same, List.map_append, List.takeWhile_append_of_pos early]
  cases tail with
  | nil => rw [List.map_nil, List.takeWhile_nil, List.append_nil]
  | cons tech others =>
      have marker : (label tech).1 ∈ markerNames := head tech rfl
      simp [marker]

/-! ### Agreement of the stacks -/

/-- What both sides read of the manifests is the same. -/
structure ManifestsAlike (fromStr : Chars → Option Json) (engine : Engine)
    (root : Project) : Prop where
  package : package engine root = Brain.Identity.package fromStr root
  cargo : root.readLenient "Cargo.toml" = root.readStrict "Cargo.toml"
  entries : ∀ entry ∈ root.entries, entry.strict = some entry.lenient

/-- Each probed dependency has one version, and the dependencies are probed before
those that only development needs. -/
def DependenciesAlike (engine : Engine) (value : Json) : Prop :=
  (∀ probe ∈ JS_PROBES, EntryAlike engine (dependency value "dependencies" probe)
    (dependency value "devDependencies" probe)) ∧
  JS_PROBES.Pairwise (fun first second =>
    dependency value "dependencies" first = none →
      dependency value "devDependencies" first ≠ none →
        dependency value "dependencies" second = none)

/-- No line of `go.mod` gives a version. -/
def Versionless (root : Project) : Prop :=
  ∀ text, root.readStrict "go.mod" = some text →
    ∀ line ∈ Brain.Identity.lines text,
      ¬ "go ".toList.isPrefixOf (trimBoth isWhitespace line) = true

structure StackAlike (fromStr : Chars → Option Json) (engine : Engine)
    (root : Project) : Prop where
  dependencies : ∀ value, Brain.Identity.package fromStr root = some value →
    DependenciesAlike engine value
  versionless : Versionless root
  no_gradle : root.hasAny ["build.gradle", "build.gradle.kts"] = false

theorem goVersion_none_iff {lines : List Chars} :
    Brain.Identity.goVersion lines = none ↔
      ∀ line ∈ lines, ¬ "go ".toList.isPrefixOf (trimBoth isWhitespace line) = true := by
  induction lines with
  | nil => simp [Brain.Identity.goVersion]
  | cons line rest ih =>
      unfold Brain.Identity.goVersion
      dsimp only
      rw [List.forall_mem_cons, ← ih]
      split
      · next found => exact iff_of_false (Option.some_ne_none _) (fun both => both.1 found)
      · next missing => rw [and_iff_right missing]

theorem readGoModVersion_none_iff (root : Project) :
    Brain.Identity.readGoModVersion root = none ↔ Versionless root := by
  unfold Brain.Identity.readGoModVersion Versionless
  rw [Option.bind_eq_none_iff]
  constructor
  · intro absent text read
    exact goVersion_none_iff.mp (absent text read)
  · intro absent text read
    exact goVersion_none_iff.mpr (absent text read)

section Start

variable {fromStr : Chars → Option Json} {engine : Engine} {root : Project}

theorem start_brain_names {tech : Technology}
    (inside : tech ∈ Brain.Identity.detectNode fromStr root []) :
    tech = node ∨ ∃ probe ∈ Brain.Identity.PROBES, tech.name = probe.name := by
  by_cases present : root.has "package.json" = true
  · cases parsed : Brain.Identity.package fromStr root with
    | none =>
        unfold Brain.Identity.detectNode at inside
        rw [if_pos present, parsed] at inside
        exact Or.inl (List.mem_singleton.mp inside)
    | some value =>
        rw [brain_node fromStr parsed present] at inside
        cases inside with
        | head => exact Or.inl rfl
        | tail _ entry =>
            rcases List.mem_append.mp entry with first | second
            · obtain ⟨probe, among, name, _⟩ := sectionEntries_names first
              exact Or.inr ⟨probe, among, name⟩
            · obtain ⟨probe, among, name, _⟩ := sectionEntries_names second
              exact Or.inr ⟨probe, among, name⟩
  · unfold Brain.Identity.detectNode at inside
    rw [if_neg present] at inside
    cases inside

theorem start_tool_names {tech : Technology} (inside : tech ∈ detectNode engine root []) :
    tech = node ∨ ∃ probe ∈ Brain.Identity.PROBES, tech.name = probe.name := by
  by_cases present : root.has "package.json" = true
  · cases parsed : package engine root with
    | none =>
        unfold detectNode at inside
        rw [if_pos present, parsed] at inside
        exact Or.inl (List.mem_singleton.mp inside)
    | some value =>
        rw [tool_node engine parsed present] at inside
        cases inside with
        | head => exact Or.inl rfl
        | tail _ entry => exact Or.inr (listedEntries_names engine _ _ entry)
  · unfold detectNode at inside
    rw [if_neg present] at inside
    cases inside

theorem start_before_markers {tech : Technology}
    (named : tech = node ∨ ∃ probe ∈ Brain.Identity.PROBES, tech.name = probe.name) :
    tech.name ∉ markerNames := by
  have probes : ∀ probe ∈ Brain.Identity.PROBES, probe.name ∉ markerNames := by decide
  cases named with
  | inl same =>
      rw [same]
      decide
  | inr named =>
      obtain ⟨probe, among, name⟩ := named
      rw [name]
      exact probes probe among

/-- The parts before the markers are the same exactly for dependencies that are alike. -/
theorem start_agree_iff (alike : ManifestsAlike fromStr engine root) :
    (Brain.Identity.detectNode fromStr root []).map label =
        (detectNode engine root []).map label ↔
      ∀ value, Brain.Identity.package fromStr root = some value →
        DependenciesAlike engine value := by
  by_cases present : root.has "package.json" = true
  · cases parsed : Brain.Identity.package fromStr root with
    | none =>
        have tool : package engine root = none := alike.package.trans parsed
        unfold Brain.Identity.detectNode detectNode
        rw [if_pos present, if_pos present, parsed, tool]
        simp
    | some value =>
        have tool : package engine root = some value := alike.package.trans parsed
        rw [brain_node fromStr parsed present, tool_node engine tool present, List.map_cons,
          List.map_cons, List.cons.injEq, eq_self_iff_true, true_and,
          entries_agree_iff engine _ _ probes_distinct]
        simp only [Option.some.injEq, forall_eq']
        rfl
  · have absent : Brain.Identity.package fromStr root = none := by
      have missing : root.file "package.json" = none := by
        simpa [Project.has] using present
      unfold Brain.Identity.package Project.readStrict
      rw [missing]
      rfl
    unfold Brain.Identity.detectNode detectNode
    rw [if_neg present, if_neg present, absent]
    simp

end Start

section Stacks

variable {fromStr : Chars → Option Json} {engine : Engine} {root : Project}

theorem brain_continues : Continues (Brain.Identity.detectNode fromStr root [])
    (Brain.Identity.detectStack fromStr root) := by
  have start : Continues (Brain.Identity.detectNode fromStr root [])
      (Brain.Identity.detectNode fromStr root []) :=
    ⟨[], (List.append_nil _).symm, fun _ none_ => nomatch none_⟩
  unfold Brain.Identity.detectStack
  refine Continues.append (Continues.append (Continues.append (Continues.append
    (Continues.append (Continues.append (Continues.appendNew (Continues.append
      (Continues.detectCargo (Continues.append (Continues.appendNew start ?_) ?_)) ?_) ?_) ?_)
        ?_) ?_) ?_) ?_) ?_
  all_goals dsimp only
  all_goals decide

theorem tool_continues : Continues (detectNode engine root []) (detectStack engine root) := by
  have start : Continues (detectNode engine root []) (detectNode engine root []) :=
    ⟨[], (List.append_nil _).symm, fun _ none_ => nomatch none_⟩
  unfold detectStack
  refine Continues.append (Continues.append (Continues.append (Continues.append
    (Continues.append (Continues.appendNew (Continues.append
      (Continues.detectCargo (Continues.append (Continues.appendNew start ?_) ?_)) ?_) ?_) ?_)
        ?_) ?_) ?_) ?_
  all_goals decide

/-- The tool lists no Gradle, and Go without a version. -/
theorem tool_entries : ∀ tech ∈ detectStack engine root,
    tech.name ≠ "gradle" ∧ (tech.name = "go" → tech.version = none) := by
  have start : ∀ tech ∈ detectNode engine root [],
      tech.name ≠ "gradle" ∧ (tech.name = "go" → tech.version = none) := by
    intro tech inside
    have outside := start_before_markers (start_tool_names inside)
    constructor
    · intro name
      exact outside (by rw [name]; decide)
    · intro name
      exact absurd (by rw [name]; decide) outside
  unfold detectStack
  refine append_all (append_all (append_all (append_all (append_all (appendNew_all (append_all
    (detectCargo_all (append_all (appendNew_all start ?_) ?_) ?_ ?_ ?_) ?_) ?_) ?_) ?_) ?_) ?_) ?_
  all_goals decide

/-- Gradle, and the version of Go, are listed by the brain alone. -/
theorem brain_entries :
    (root.hasAny ["build.gradle", "build.gradle.kts"] = true →
      ∃ tech ∈ Brain.Identity.detectStack fromStr root, tech.name = "gradle") ∧
    (root.has "go.mod" = true →
      ∃ tech ∈ Brain.Identity.detectStack fromStr root,
        tech.name = "go" ∧ tech.version = Brain.Identity.readGoModVersion root) := by
  unfold Brain.Identity.detectStack
  constructor
  · intro present
    rw [present]
    exact ⟨_, mem_append_before (mem_append_before mem_append_present), rfl⟩
  · intro present
    rw [present]
    exact ⟨_, mem_append_before (mem_append_before (mem_append_before (mem_append_before
      (mem_append_before mem_append_present)))), rfl, rfl⟩

theorem entries_suffix (alike : ManifestsAlike fromStr engine root) :
    (root.entries.any fun entry => ".csproj".toList.isSuffixOf entry.lenient ||
      ".sln".toList.isSuffixOf entry.lenient) =
    (Brain.Identity.dirContainsSuffix root ".csproj" ||
      Brain.Identity.dirContainsSuffix root ".sln") := by
  have texts := alike.entries
  unfold Brain.Identity.dirContainsSuffix
  revert texts
  generalize root.entries = entries
  intro texts
  induction entries with
  | nil => rfl
  | cons entry rest ih =>
      have here := texts entry List.mem_cons_self
      rw [List.any_cons, List.any_cons, List.any_cons, here,
        ih (fun other inside => texts other (List.mem_cons_of_mem _ inside))]
      simp only [Option.map_some, Option.getD_some]
      cases ".csproj".toList.isSuffixOf entry.lenient <;>
        cases ".sln".toList.isSuffixOf entry.lenient <;> simp

theorem stack_agree_iff (alike : ManifestsAlike fromStr engine root) :
    (Brain.Identity.detectStack fromStr root).map label = (detectStack engine root).map label ↔
      StackAlike fromStr engine root := by
  constructor
  · intro same
    have lists : ∀ tech ∈ Brain.Identity.detectStack fromStr root,
        tech.name ≠ "gradle" ∧ (tech.name = "go" → tech.version = none) := by
      intro tech inside
      have labelled : label tech ∈ (detectStack engine root).map label := by
        rw [← same]
        exact List.mem_map_of_mem inside
      obtain ⟨other, among, equal⟩ := List.mem_map.mp labelled
      have names : other.name = tech.name := congrArg Prod.fst equal
      have versions : other.version = tech.version := congrArg Prod.snd equal
      rw [← names, ← versions]
      exact tool_entries other among
    refine { dependencies := ?_, versionless := ?_, no_gradle := ?_ }
    · apply (start_agree_iff alike).mp
      rw [← brain_continues.start_label
          (fun _ inside => start_before_markers (start_brain_names inside)),
        ← tool_continues.start_label
          (fun _ inside => start_before_markers (start_tool_names inside)), same]
    · rw [← readGoModVersion_none_iff]
      by_cases present : root.has "go.mod" = true
      · obtain ⟨tech, inside, name, version⟩ := (@brain_entries fromStr root).2 present
        rw [← version]
        exact (lists tech inside).2 name
      · have missing : root.file "go.mod" = none := by
          simpa [Project.has] using present
        unfold Brain.Identity.readGoModVersion Project.readStrict
        rw [missing]
        rfl
    · by_contra present
      obtain ⟨tech, inside, name⟩ :=
        (@brain_entries fromStr root).1 (Bool.eq_true_of_not_eq_false present)
      exact (lists tech inside).1 name
  · intro condition
    have start := (start_agree_iff alike).mpr condition.dependencies
    have version := (readGoModVersion_none_iff root).mpr condition.versionless
    unfold Brain.Identity.detectStack detectStack
    rw [version, condition.no_gradle, entries_suffix alike, alike.cargo]
    apply append_label
    apply append_label
    have no_gradle : ∀ tech out, append false tech out = out := fun _ _ => rfl
    rw [no_gradle]
    exact append_label _ _ (append_label _ _ (append_label _ _ (appendNew_label _ _
      (append_label _ _ (detectCargo_label _ _ (append_label _ _
        (appendNew_label _ _ start)))))))

end Stacks

end Mneme.Mcp.Identity
