/-
The in-process fallback of the tool refactor_apply: the paths it computes, the
checks it makes and the file it writes.

Paths are POSIX paths, kept as their names; the text of a file is the UTF-16
code units that a string holds it in.
-/

import Mneme.Common.FileTree

namespace Mneme.Mcp

open Common

abbrev Units := List UInt16

/-! ### Paths -/

def FileName.ofText (text : String) : Option FileName :=
  if normal : NormalName text then some ⟨text, normal⟩ else none

def isAbsolute (file : String) : Bool :=
  "/".toList.isPrefixOf file.toList

/-- One segment of `resolve`. -/
def resolveSegment (path : Names) (segment : List Char) : Names :=
  if segment = ['.', '.'] then path.dropLast
  else
    match FileName.ofText (String.ofList segment) with
    | some name => path ++ [name]
    -- What is left is an empty segment or a dot.
    | none => path

/-- `resolve(file)`, relative to the working directory. -/
def resolve (cwd : Names) (file : String) : Names :=
  (file.toList.splitOn '/').foldl resolveSegment (if isAbsolute file then [] else cwd)

/-- Two paths without the names they have in common. -/
def dropCommon : Names → Names → Names × Names
  | left :: base, right :: target =>
      if left = right then dropCommon base target else (left :: base, right :: target)
  | base, target => (base, target)

def relative (base target : Names) : String :=
  let (up, down) := dropCommon base target
  "/".intercalate (up.map (fun _ => "..") ++ down.map FileName.text)

/-- What the file system answers.  `real` follows the symbolic links of a
directory. -/
structure Disk where
  exists? : Names → Bool
  read : Names → Except String Units
  real : Names → Names
  write : Names → Except String Unit
  rename : Names → Except String Unit
  home : Names

def deniedNames : List String :=
  [".git", "target", "node_modules"]

def deniedHomes : List String :=
  [".datatree", ".mneme"]

/-- `isUnderDenyDir`, of a path already resolved. -/
def isUnderDenyDir (disk : Disk) (path : Names) : Bool :=
  path.any (fun name => name.text ∈ deniedNames) ||
    deniedHomes.any (fun text =>
      match FileName.ofText text with
      | some name => (disk.home ++ [name]).isPrefixOf path
      | none => false)

def markers : List FileName :=
  [".git", ".claude", "package.json", "Cargo.toml", "pyproject.toml"].filterMap FileName.ofText

/-- The climb of `findProjectRoot`, by the levels that are left. -/
def climb (disk : Disk) : Nat → Names → Option Names
  | 0, _ => none
  | levels + 1, path =>
      if markers.any (fun marker => disk.exists? (path ++ [marker])) then some path
      else if path = [] then none
      else climb disk levels path.dropLast

def findProjectRoot (disk : Disk) (start : Names) : Option Names :=
  climb disk 40 start

/-! ### Proposals -/

structure Proposal where
  file : String
  lineStart : Int
  lineEnd : Int
  columnStart : Int
  columnEnd : Int
  originalText : Units
  replacementText : Units
  appliedAt : Option String

/-- The projects that have a shard, by their roots, and the proposals in each. -/
structure Shards where
  projects : List Names
  proposals : Names → String → Option Proposal

/-- The project whose shard is used: that of the working directory, or else the
only one there is. -/
def activeProject (disk : Disk) (shards : Shards) (cwd : Names) : Option Names :=
  match findProjectRoot disk cwd with
  | some root =>
      if root ∈ shards.projects then some root
      else
        match shards.projects with
        | [only] => some only
        | _ => none
  | none =>
      match shards.projects with
      | [only] => some only
      | _ => none

def refactorProposalFullById (disk : Disk) (shards : Shards) (cwd : Names) (id : String) :
    Option Proposal :=
  (activeProject disk shards cwd).bind (fun root => shards.proposals root id)

/-! ### Text -/

def newline : UInt16 := 10

/-- The offset after so many line ends. -/
def skipLines : Units → Nat → Nat
  | [], _ => 0
  | _, 0 => 0
  | unit :: rest, lines + 1 => 1 + skipLines rest (if unit = newline then lines else lines + 1)

/-- So many units further, or to the end of the line. -/
def skipColumns : Units → Nat → Nat
  | [], _ => 0
  | _, 0 => 0
  | unit :: rest, columns + 1 => if unit = newline then 0 else 1 + skipColumns rest columns

def offsetForLineColumn (text : Units) (line column : Int) : Nat :=
  if line ≤ 0 then 0
  else
    let start := skipLines text (line - 1).toNat
    start + skipColumns (text.drop start) column.toNat

def slice (text : Units) (start stop : Nat) : Units :=
  (text.take stop).drop start

/-- `Buffer.byteLength(text, "utf8")`: a lone surrogate is replaced by a
character of three bytes. -/
def byteLength : Units → Nat
  | [] => 0
  | [unit] => if unit < 0x80 then 1 else if unit < 0x800 then 2 else 3
  | unit :: next :: rest =>
      if unit < 0x80 then 1 + byteLength (next :: rest)
      else if unit < 0x800 then 2 + byteLength (next :: rest)
      else if 0xD800 ≤ unit ∧ unit < 0xDC00 ∧ 0xDC00 ≤ next ∧ next < 0xE000 then
        4 + byteLength rest
      else 3 + byteLength (next :: rest)

def asciiUnits (text : String) : Units :=
  text.toList.map (fun char => UInt16.ofNat char.toNat)

def trimPreview (text : Units) (max : Nat) : Units :=
  if text.length ≤ max then text
  else text.take max ++ asciiUnits s!"... ({text.length - max} more chars)"

/-! ### The fallback -/

structure Output where
  proposalId : String
  applied : Bool := false
  diffSummary : String := ""
  bytesWritten : Nat := 0
  reason : Option String := none
  file : Option Names := none
  appliedAt : Option Nat := none
  expectedPreview : Option Units := none
  actualPreview : Option Units := none
  previewNewContent : Option Units := none
  dryRun : Option Bool := none

structure Request where
  proposalId : String
  dryRun : Bool

/-- What was written beside the target, and whether it was moved onto it. -/
structure Written where
  target : Names
  content : Units
  renamed : Bool

/-- From the content on: the range, the drift check and the write. -/
def rewrite (disk : Disk) (now : Nat) (request : Request) (proposal : Proposal) (target : Names)
    (original : Units) : Output × Option Written :=
  let start := offsetForLineColumn original proposal.lineStart proposal.columnStart
  let stop := offsetForLineColumn original proposal.lineEnd proposal.columnEnd
  if stop < start then
    ({ proposalId := request.proposalId
       reason := some "invalid proposal range: end < start" }, none)
  else if slice original start stop ≠ proposal.originalText then
    ({ proposalId := request.proposalId
       reason := some "file changed since proposal created"
       expectedPreview := some (trimPreview proposal.originalText 200)
       actualPreview := some (trimPreview (slice original start stop) 200) }, none)
  else
    let content := original.take start ++ proposal.replacementText ++ original.drop stop
    let summary := s!"rewrote {proposal.file} lines {proposal.lineStart}-{proposal.lineEnd}: " ++
      s!"{proposal.originalText.length}->{proposal.replacementText.length} chars"
    if request.dryRun then
      ({ proposalId := request.proposalId
         diffSummary := summary
         bytesWritten := byteLength content
         file := some target
         dryRun := some true
         previewNewContent := some (trimPreview content 400) }, none)
    else
      match disk.write target with
      | .error message =>
          ({ proposalId := request.proposalId, reason := some s!"fs error: {message}" }, none)
      | .ok () =>
          match disk.rename target with
          | .error message =>
              ({ proposalId := request.proposalId, reason := some s!"fs error: {message}" },
                some { target, content, renamed := false })
          | .ok () =>
              ({ proposalId := request.proposalId
                 applied := true
                 diffSummary := summary
                 bytesWritten := byteLength content
                 file := some target
                 appliedAt := some now },
                some { target, content, renamed := true })

/-- An absolute path is checked against the root found from the path itself. -/
def escapesProjectRoot (disk : Disk) (file : String) (target : Names) : Bool :=
  if isAbsolute file then
    match findProjectRoot disk target with
    | some root => "..".toList.isPrefixOf (relative root target).toList
    | none => false
  else false

def runFallback (disk : Disk) (shards : Shards) (cwd : Names) (now : Nat) (request : Request) :
    Output × Option Written :=
  match refactorProposalFullById disk shards cwd request.proposalId with
  | none => ({ proposalId := request.proposalId, reason := some "proposal not found" }, none)
  | some proposal =>
      match proposal.appliedAt with
      | some moment =>
          ({ proposalId := request.proposalId, reason := some s!"already applied at {moment}" },
            none)
      | none =>
          let target := resolve cwd proposal.file
          if isUnderDenyDir disk target then
            ({ proposalId := request.proposalId
               reason := some s!"target path is under a protected directory: {proposal.file}" },
              none)
          else if escapesProjectRoot disk proposal.file target then
            ({ proposalId := request.proposalId
               reason := some s!"target path escapes project root: {proposal.file}" }, none)
          else if !disk.exists? target then
            ({ proposalId := request.proposalId, reason := some "target file missing" }, none)
          else
            match disk.read target with
            | .error message =>
                ({ proposalId := request.proposalId, reason := some s!"fs error: {message}" }, none)
            | .ok original => rewrite disk now request proposal target original

/-! ### What the root check refuses -/

theorem climb_ancestor {disk : Disk} {levels : Nat} {path root : Names}
    (found : climb disk levels path = some root) : root <+: path := by
  induction levels generalizing path with
  | zero => cases found
  | succ levels ih =>
      unfold climb at found
      split at found
      · cases found
        exact List.prefix_refl _
      · split at found
        · cases found
        · exact (ih found).trans (List.dropLast_prefix path)

theorem dropCommon_append (base below : Names) : dropCommon base (base ++ below) = ([], below) := by
  induction base with
  | nil => rfl
  | cons name base ih =>
      rw [List.cons_append, dropCommon, if_pos rfl]
      exact ih

/-- The root is found by climbing from the target, so it always contains the
target; the check refuses names that begin with two dots. -/
theorem escapesProjectRoot_iff (disk : Disk) (file : String) (target : Names) :
    escapesProjectRoot disk file target = true ↔
      isAbsolute file = true ∧ ∃ root below, findProjectRoot disk target = some root ∧
        target = root ++ below ∧
          "..".toList <+: ("/".intercalate (below.map FileName.text)).toList := by
  unfold escapesProjectRoot
  cases absolute : isAbsolute file with
  | false => simp
  | true =>
      rw [if_pos rfl, and_iff_right rfl]
      cases found : findProjectRoot disk target with
      | none => simp
      | some root =>
          obtain ⟨below, split⟩ := climb_ancestor found
          have under : relative root target = "/".intercalate (below.map FileName.text) := by
            unfold relative
            rw [← split, dropCommon_append]
            rfl
          dsimp only
          rw [List.isPrefixOf_iff_prefix, under]
          constructor
          · intro dotted
            exact ⟨root, below, rfl, split.symm, dotted⟩
          · rintro ⟨_, other, same, under, dotted⟩
            cases same
            rw [List.append_cancel_left (split.trans under)]
            exact dotted

/-! ### Confinement -/

/-- Where the target lies when the links on the way to it are followed. -/
def physical (disk : Disk) (target : Names) : Names :=
  disk.real target.dropLast ++ target.getLast?.toList

/-- Inside the project, and under no protected directory. -/
structure Confined (disk : Disk) (root target : Names) : Prop where
  inside : disk.real root <+: physical disk target
  undenied : ∀ name ∈ physical disk target, name.text ∉ deniedNames
  notHome : ∀ text ∈ deniedHomes, ∀ name, FileName.ofText text = some name →
    ¬ disk.real (disk.home ++ [name]) <+: physical disk target

/-- Everything the fallback asks before it writes. -/
structure Accepted (disk : Disk) (cwd : Names) (request : Request) (proposal : Proposal) :
    Prop where
  unapplied : proposal.appliedAt = none
  undenied : isUnderDenyDir disk (resolve cwd proposal.file) = false
  undotted : ¬ (isAbsolute proposal.file = true ∧ ∃ root below,
    findProjectRoot disk (resolve cwd proposal.file) = some root ∧
      resolve cwd proposal.file = root ++ below ∧
        "..".toList <+: ("/".intercalate (below.map FileName.text)).toList)
  there : disk.exists? (resolve cwd proposal.file) = true
  undrifted : ∃ original, disk.read (resolve cwd proposal.file) = .ok original ∧
    ∃ start stop, start = offsetForLineColumn original proposal.lineStart proposal.columnStart ∧
      stop = offsetForLineColumn original proposal.lineEnd proposal.columnEnd ∧ start ≤ stop ∧
        slice original start stop = proposal.originalText
  wet : request.dryRun = false
  writable : disk.write (resolve cwd proposal.file) = .ok ()

/-- A branch that writes nothing is right to refuse. -/
theorem unwritten_iff {target : Names} {accepted : Prop} (refused : ¬ accepted) :
    (∃ written : Written, none = some written ∧ written.target = target) ↔ accepted := by
  refine iff_of_false ?_ refused
  rintro ⟨_, nothing, _⟩
  cases nothing

theorem rewrite_written_iff (disk : Disk) (now : Nat) (request : Request) (proposal : Proposal)
    (target other : Names) (original : Units) :
    (∃ written, (rewrite disk now request proposal target original).2 = some written ∧
        written.target = other) ↔
      other = target ∧
        offsetForLineColumn original proposal.lineStart proposal.columnStart ≤
          offsetForLineColumn original proposal.lineEnd proposal.columnEnd ∧
        slice original (offsetForLineColumn original proposal.lineStart proposal.columnStart)
          (offsetForLineColumn original proposal.lineEnd proposal.columnEnd) =
            proposal.originalText ∧
        request.dryRun = false ∧ disk.write target = .ok () := by
  unfold rewrite
  dsimp only
  split
  · next inverted =>
      apply unwritten_iff
      rintro ⟨_, ordered, _⟩
      omega
  · next ordered =>
      split
      · next drifted =>
          apply unwritten_iff
          rintro ⟨_, _, same, _⟩
          exact drifted same
      · next same =>
          split
          · next dry =>
              apply unwritten_iff
              rintro ⟨_, _, _, wet, _⟩
              rw [dry] at wet
              cases wet
          · next wet =>
              split
              · next failed =>
                  apply unwritten_iff
                  rintro ⟨_, _, _, _, done⟩
                  rw [failed] at done
                  cases done
              · next done =>
                  have rest : offsetForLineColumn original proposal.lineStart
                      proposal.columnStart ≤ offsetForLineColumn original proposal.lineEnd
                        proposal.columnEnd := by
                    omega
                  split
                  · simp only [Option.some.injEq, exists_eq_left']
                    exact ⟨fun equal => ⟨equal.symm, rest, not_not.mp same,
                      Bool.eq_false_iff.mpr wet, done⟩, fun all => all.1.symm⟩
                  · simp only [Option.some.injEq, exists_eq_left']
                    exact ⟨fun equal => ⟨equal.symm, rest, not_not.mp same,
                      Bool.eq_false_iff.mpr wet, done⟩, fun all => all.1.symm⟩

/-- A file is written exactly for an accepted proposal, at the resolved path. -/
theorem runFallback_written_iff (disk : Disk) (shards : Shards) (cwd : Names) (now : Nat)
    (request : Request) (target : Names) :
    (∃ written, (runFallback disk shards cwd now request).2 = some written ∧
        written.target = target) ↔
      ∃ proposal, refactorProposalFullById disk shards cwd request.proposalId = some proposal ∧
        Accepted disk cwd request proposal ∧ target = resolve cwd proposal.file := by
  unfold runFallback
  cases found : refactorProposalFullById disk shards cwd request.proposalId with
  | none => simp
  | some proposal =>
      simp only [Option.some.injEq, exists_eq_left']
      cases applied : proposal.appliedAt with
      | some moment =>
          apply unwritten_iff
          rintro ⟨accepted, _⟩
          rw [accepted.unapplied] at applied
          cases applied
      | none =>
          dsimp only
          split
          · next denied =>
              apply unwritten_iff
              rintro ⟨accepted, _⟩
              rw [accepted.undenied] at denied
              cases denied
          · next undenied =>
              split
              · next dotted =>
                  apply unwritten_iff
                  rintro ⟨accepted, _⟩
                  exact accepted.undotted ((escapesProjectRoot_iff _ _ _).mp dotted)
              · next undotted =>
                  rw [escapesProjectRoot_iff] at undotted
                  split
                  · next missing =>
                      apply unwritten_iff
                      rintro ⟨accepted, _⟩
                      rw [accepted.there] at missing
                      cases missing
                  · next there =>
                      cases read : disk.read (resolve cwd proposal.file) with
                      | error message =>
                          apply unwritten_iff
                          rintro ⟨accepted, _⟩
                          obtain ⟨original, done, _⟩ := accepted.undrifted
                          rw [read] at done
                          cases done
                      | ok original =>
                          dsimp only
                          rw [rewrite_written_iff]
                          constructor
                          · rintro ⟨same, ordered, undrifted, wet, writable⟩
                            exact ⟨⟨applied, Bool.eq_false_iff.mpr undenied, undotted,
                              by simpa using there,
                              ⟨original, read, _, _, rfl, rfl, ordered, undrifted⟩, wet,
                              writable⟩, same⟩
                          · rintro ⟨accepted, same⟩
                            obtain ⟨other, done, _, _, rfl, rfl, ordered, undrifted⟩ :=
                              accepted.undrifted
                            rw [read] at done
                            cases done
                            exact ⟨same, ordered, undrifted, accepted.wet, accepted.writable⟩

theorem confined_iff (disk : Disk) (shards : Shards) (cwd : Names) (now : Nat)
    (request : Request) :
    (∀ written, (runFallback disk shards cwd now request).2 = some written →
        ∃ root, activeProject disk shards cwd = some root ∧ Confined disk root written.target) ↔
      ∀ root proposal, activeProject disk shards cwd = some root →
        shards.proposals root request.proposalId = some proposal →
          ¬ Accepted disk cwd request proposal ∨
            Confined disk root (resolve cwd proposal.file) := by
  constructor
  · intro safe root proposal active stored
    have found : refactorProposalFullById disk shards cwd request.proposalId = some proposal := by
      unfold refactorProposalFullById
      rw [active]
      exact stored
    by_cases accepted : Accepted disk cwd request proposal
    · obtain ⟨written, wrote, same⟩ :=
        (runFallback_written_iff disk shards cwd now request _).mpr
          ⟨proposal, found, accepted, rfl⟩
      obtain ⟨other, alsoActive, confined⟩ := safe written wrote
      rw [active] at alsoActive
      cases alsoActive
      rw [same] at confined
      exact Or.inr confined
    · exact Or.inl accepted
  · intro condition written wrote
    obtain ⟨proposal, found, accepted, same⟩ :=
      (runFallback_written_iff disk shards cwd now request written.target).mp ⟨written, wrote, rfl⟩
    obtain ⟨root, active, stored⟩ := Option.bind_eq_some_iff.mp found
    rw [same]
    exact ⟨root, active, (condition root proposal active stored).resolve_left (not_not.mpr accepted)⟩

theorem normal_home : NormalName "h" := by decide
theorem normal_project : NormalName "p" := by decide
theorem normal_git : NormalName ".git" := by decide

/-- A disk without links, on which `/p` is a project. -/
def plainDisk : Disk :=
  { exists? := fun path => path = [⟨"p", normal_project⟩, ⟨".git", normal_git⟩] ∨
      displayAbsolute path = "/q/a.ts"
    read := fun _ => .ok []
    real := id
    write := fun _ => .ok ()
    rename := fun _ => .ok ()
    home := [⟨"h", normal_home⟩] }

/-- One proposal, for a file beside the project. -/
def straying : Shards :=
  { projects := [[⟨"p", normal_project⟩]]
    proposals := fun _ _ => some
      { file := "../q/a.ts"
        lineStart := 1
        lineEnd := 1
        columnStart := 0
        columnEnd := 0
        originalText := []
        replacementText := []
        appliedAt := none } }

theorem relative_path_leaves_project :
    ¬ ∀ (disk : Disk) (shards : Shards) (cwd : Names) (now : Nat) (request : Request),
      ∀ written, (runFallback disk shards cwd now request).2 = some written →
        ∃ root, activeProject disk shards cwd = some root ∧
          Confined disk root written.target := by
  intro always
  have evaluated : (match (runFallback plainDisk straying [⟨"p", normal_project⟩] 0
        { proposalId := "1", dryRun := false }).2 with
      | some written => decide (activeProject plainDisk straying [⟨"p", normal_project⟩] =
          some [⟨"p", normal_project⟩] ∧
            ¬ [⟨"p", normal_project⟩] <+: physical plainDisk written.target)
      | none => false) = true := by decide
  split at evaluated
  · next written wrote =>
      obtain ⟨active, outside⟩ := of_decide_eq_true evaluated
      obtain ⟨root, alsoActive, confined⟩ := always plainDisk straying _ 0 _ written wrote
      rw [active] at alsoActive
      cases alsoActive
      exact outside confined.inside
  · cases evaluated

end Mneme.Mcp
