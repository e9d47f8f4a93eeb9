/-
# Installing a snapshot, and what a failed install leaves

`import` checks a snapshot, moves the old chaindata aside, copies the snapshot's `db` directory
in its place and verifies the copy.  A failing verification is rolled back; a failing copy is
not, so what it has written so far stays where the old chaindata was.  What `export` has written
is installed whole.
-/
import Coincync.Constants
import Coincync.Lib.Checks

namespace Coincync.Snapshot

open Lib Lib.Except

/-! ## 1. Directories and file-system steps -/

mutual
/-- What a path holds; `other` is a symlink or a special file. -/
inductive Tree
  | file (bytes : Bytes)
  | dir (entries : Entries)
  | other

/-- The entries of a directory, in the order `read_dir` gives them. -/
inductive Entries
  | nil
  | cons (name : String) (node : Tree) (rest : Entries)
end

/-- How a file-system step ends.  A file copy that fails may have `written` some of the bytes. -/
inductive Outcome
  | done
  | failed (e : String) (written : Option Nat)

inductive Error
  | other (text : String)
  | serializationError (text : String)
  | invalidState (text : String)

def ioErr (ctx e : String) : Error := .other s!"snapshot: {ctx}: {e}"

/-- A copy as it stops: what it `left`, the number of the next step, and its error. -/
structure Copied (α : Type) where
  left : α
  step : Nat
  err : Option Error

mutual
/-- A tree without the symlinks and special files, which no copy has. -/
def Tree.plain : Tree → Option Tree
  | .file bytes => some (.file bytes)
  | .dir entries => some (.dir entries.plain)
  | .other => none

def Entries.plain : Entries → Entries
  | .nil => .nil
  | .cons name node rest => node.plain.elim rest.plain fun t => .cons name t rest.plain
end

mutual
/-- The number of steps of a whole copy. -/
def Tree.steps : Tree → Nat
  | .file _ => 1
  | .dir entries => entries.steps + 2
  | .other => 0

def Entries.steps : Entries → Nat
  | .nil => 0
  | .cons _ node rest => node.steps + rest.steps + 2
end

def Entries.names : Entries → List String
  | .nil => []
  | .cons name _ rest => name :: rest.names

mutual
theorem Tree.plain_plain : ∀ node t : Tree, node.plain = some t → t.plain = some t
  | .file _, _, h => by
    cases h
    rw [Tree.plain]
  | .dir entries, _, h => by
    cases h
    rw [Tree.plain, Entries.plain_plain entries]
  | .other, _, h => by cases h

theorem Entries.plain_plain : ∀ entries : Entries, entries.plain.plain = entries.plain
  | .nil => rfl
  | .cons name node rest => by
    cases hnode : node.plain with
    | none => simpa [Entries.plain, hnode] using Entries.plain_plain rest
    | some t =>
      simp [Entries.plain, hnode, Tree.plain_plain node t hnode, Entries.plain_plain rest]
end

section
variable (fate : Nat → Outcome)

mutual
/-- `copy_dir_recursive` at a directory, `fs::copy` at a file; step `n` ends as `fate n`. -/
def copyNode (n : Nat) : Tree → Copied (Option Tree)
  | .other => ⟨none, n, none⟩
  | .file bytes =>
    match fate n with
    | .done => ⟨some (.file bytes), n + 1, none⟩
    | .failed e written =>
      ⟨written.map fun k => .file (bytes.take k), n + 1, some (ioErr "copy file" e)⟩
  | .dir entries =>
    match fate n, fate (n + 1) with
    | .failed e _, _ => ⟨none, n + 1, some (ioErr "create dir" e)⟩
    | .done, .failed e _ => ⟨some (.dir .nil), n + 2, some (ioErr "read dir" e)⟩
    | .done, .done =>
      let c := copyEntries (n + 2) entries
      ⟨some (.dir c.left), c.step, c.err⟩

/-- The loop over the entries. -/
def copyEntries (n : Nat) : Entries → Copied Entries
  | .nil => ⟨.nil, n, none⟩
  | .cons name node rest =>
    match fate n, fate (n + 1) with
    | .failed e _, _ => ⟨.nil, n + 1, some (ioErr "dir entry" e)⟩
    | .done, .failed e _ => ⟨.nil, n + 2, some (ioErr "file type" e)⟩
    | .done, .done =>
      let c := copyNode (n + 2) node
      let r := if c.err.isSome then ⟨.nil, c.step, c.err⟩ else copyEntries c.step rest
      ⟨c.left.elim r.left fun t => .cons name t r.left, r.step, r.err⟩
end

def copyDirRecursive (n : Nat) (entries : Entries) : Copied (Option Tree) :=
  copyNode fate n (.dir entries)

variable {fate}

mutual
/-- **A copy that ends without an error is whole**, and none of its steps has failed. -/
theorem copyNode_of_no_error (n : Nat) : ∀ node, (copyNode fate n node).err = none →
    copyNode fate n node = ⟨node.plain, n + node.steps, none⟩ ∧
      ∀ k, n ≤ k → k < n + node.steps → fate k = .done
  | .other, _ => ⟨by rw [copyNode, Tree.plain, Tree.steps, Nat.add_zero], fun k hk hk' => by
      rw [Tree.steps] at hk'
      omega⟩
  | .file bytes, h => by
    rw [copyNode, Tree.steps] at *
    split at h
    next hn =>
      refine ⟨by rw [Tree.plain], fun k hk hk' => ?_⟩
      rwa [show k = n by omega]
    next => cases h
  | .dir entries, h => by
    rw [copyNode, Tree.steps] at *
    split at h
    next => cases h
    next => cases h
    next h₀ h₁ =>
      obtain ⟨heq, hall⟩ := copyEntries_of_no_error (n + 2) entries h
      refine ⟨by rw [heq, Tree.plain, add_right_comm, add_assoc n], fun k hk hk' => ?_⟩
      obtain rfl | rfl | hle : k = n ∨ k = n + 1 ∨ n + 2 ≤ k := by omega
      · exact h₀
      · exact h₁
      · exact hall k hle (by omega)

theorem copyEntries_of_no_error (n : Nat) : ∀ entries, (copyEntries fate n entries).err = none →
    copyEntries fate n entries = ⟨entries.plain, n + entries.steps, none⟩ ∧
      ∀ k, n ≤ k → k < n + entries.steps → fate k = .done
  | .nil, _ => ⟨by rw [copyEntries, Entries.plain, Entries.steps, Nat.add_zero], fun k hk hk' => by
      rw [Entries.steps] at hk'
      omega⟩
  | .cons name node rest, h => by
    rw [copyEntries, Entries.steps] at *
    split at h
    next => cases h
    next => cases h
    next h₀ h₁ =>
      cases hc : (copyNode fate (n + 2) node).err with
      | some e => simp [hc] at h
      | none =>
        obtain ⟨hnode, hall⟩ := copyNode_of_no_error (n + 2) node hc
        simp only [hnode, Option.isSome_none, Bool.false_eq_true, if_false] at h ⊢
        obtain ⟨hrest, hall'⟩ := copyEntries_of_no_error _ rest h
        have hstep : n + 2 + node.steps + rest.steps = n + (node.steps + rest.steps + 2) := by omega
        refine ⟨by rw [hrest, Entries.plain, hstep], fun k hk hk' => ?_⟩
        obtain rfl | rfl | hle : k = n ∨ k = n + 1 ∨ n + 2 ≤ k := by omega
        · exact h₀
        · exact h₁
        · by_cases hnext : k < n + 2 + node.steps
          · exact hall k hle hnext
          · exact hall' k (by omega) (by omega)
end

mutual
/-- **A copy none of whose steps fails succeeds.** -/
theorem err_copyNode (n : Nat) : ∀ node,
    (∀ k, n ≤ k → k < n + node.steps → fate k = .done) → (copyNode fate n node).err = none
  | .other, _ => by rw [copyNode]
  | .file _, h => by
    rw [copyNode, h n le_rfl (by simp [Tree.steps])]
  | .dir entries, h => by
    rw [Tree.steps] at h
    rw [copyNode, h n le_rfl (by omega), h (n + 1) (by omega) (by omega)]
    exact err_copyEntries (n + 2) entries fun k hk hk' => h k (by omega) (by omega)

theorem err_copyEntries (n : Nat) : ∀ entries,
    (∀ k, n ≤ k → k < n + entries.steps → fate k = .done) → (copyEntries fate n entries).err = none
  | .nil, _ => by rw [copyEntries]
  | .cons _ node rest, h => by
    rw [Entries.steps] at h
    have hnode := err_copyNode (n + 2) node fun k hk hk' => h k (by omega) (by omega)
    obtain ⟨heq, -⟩ := copyNode_of_no_error (n + 2) node hnode
    rw [copyEntries, h n le_rfl (by omega), h (n + 1) (by omega) (by omega)]
    simp only [heq, Option.isSome_none, Bool.false_eq_true, if_false]
    exact err_copyEntries _ rest fun k hk hk' => h k (by omega) (by omega)
end

theorem names_copyEntries (n : Nat) : ∀ entries,
    (copyEntries fate n entries).left.names ⊆ entries.names
  | .nil => by simp [copyEntries, Entries.names]
  | .cons name node rest => by
    rw [copyEntries]
    split
    · simp [Entries.names]
    · simp [Entries.names]
    · have hrest := names_copyEntries (copyNode fate (n + 2) node).step rest
      dsimp only
      cases (copyNode fate (n + 2) node).left <;> split_ifs <;>
        simp_all [Entries.names, List.subset_def]

theorem left_copyDirRecursive (fate : Nat → Outcome) (n : Nat) (entries : Entries) :
    (copyDirRecursive fate n entries).left = none ∧ fate n ≠ .done ∨
      ∃ copied, (copyDirRecursive fate n entries).left = some (.dir copied) ∧
        copied.names ⊆ entries.names ∧ fate n = .done := by
  rw [copyDirRecursive, copyNode]
  split
  next hn => exact .inl ⟨rfl, by simp [hn]⟩
  next hn _ => exact .inr ⟨.nil, rfl, by simp [Entries.names], hn⟩
  next hn _ => exact .inr ⟨_, rfl, names_copyEntries (n + 2) entries, hn⟩

theorem copyDirRecursive_of_no_error {n : Nat} {entries : Entries}
    (h : (copyDirRecursive fate n entries).err = none) :
    (copyDirRecursive fate n entries).left = some (.dir entries.plain) := by
  rw [copyDirRecursive, (copyNode_of_no_error n _ h).1, Tree.plain]

end

/-! ## 2. The hash of a directory -/

section
variable (fate : Nat → Outcome)

mutual
/-- `collect_files` at a path: the files below it. -/
def collectNode (n : Nat) (path : List String) :
    Tree → Except Error (Nat × List (List String × Bytes))
  | .other => .ok (n, [])
  | .file bytes => .ok (n, [(path, bytes)])
  | .dir entries =>
    match fate n with
    | .failed e _ => .error (ioErr "read dir" e)
    | .done => collectEntries (n + 1) path entries

/-- The loop over the entries. -/
def collectEntries (n : Nat) (path : List String) :
    Entries → Except Error (Nat × List (List String × Bytes))
  | .nil => .ok (n, [])
  | .cons name node rest =>
    match fate n, fate (n + 1) with
    | .failed e _, _ => .error (ioErr "dir entry" e)
    | .done, .failed e _ => .error (ioErr "file type" e)
    | .done, .done => do
      let (n, files) ← collectNode (n + 2) (path ++ [name]) node
      let (n, others) ← collectEntries n path rest
      return (n, files ++ others)
end

/-- The loop over the sorted files: what is fed to the hasher. -/
def hashedBytes (n : Nat) : List (List String × Bytes) → Except Error Bytes
  | [] => .ok []
  | (path, bytes) :: rest =>
    match fate n with
    | .failed e _ => .error (ioErr "read file for hash" e)
    | .done => do
      let later ← hashedBytes (n + 1) rest
      return ("/".intercalate path).toUTF8.toList ++ 0 :: leBytes 8 bytes.length ++ bytes ++ later

def blake3OfDir (blake3 : Bytes → String) (entries : Entries) : Except Error String := do
  let (n, files) ← collectNode fate 0 [] (.dir entries)
  let bytes ← hashedBytes fate n (files.insertionSort (·.1 ≤ ·.1))
  return blake3 bytes

variable {fate}
variable {fate' : Nat → Outcome} (hfate' : ∀ k, fate' k = .done)
include hfate'

mutual
theorem collectNode_of_ok {n m n' : Nat} {path : List String}
    {files : List (List String × Bytes)} : ∀ {node : Tree},
    collectNode fate n path node = .ok (m, files) →
      ∃ m', collectNode fate' n' path node = .ok (m', files)
  | .other, h => by
    cases h
    exact ⟨n', rfl⟩
  | .file _, h => by
    cases h
    exact ⟨n', rfl⟩
  | .dir entries, h => by
    rw [collectNode] at h ⊢
    split at h
    · cases h
    · rw [hfate']
      exact collectEntries_of_ok h

theorem collectEntries_of_ok {n m n' : Nat} {path : List String}
    {files : List (List String × Bytes)} : ∀ {entries : Entries},
    collectEntries fate n path entries = .ok (m, files) →
      ∃ m', collectEntries fate' n' path entries = .ok (m', files)
  | .nil, h => by
    cases h
    exact ⟨n', rfl⟩
  | .cons name node rest, h => by
    rw [collectEntries] at h ⊢
    split at h
    · cases h
    · cases h
    · obtain ⟨⟨n₁, here⟩, hnode, h⟩ := bind_eq_ok_iff.mp h
      obtain ⟨⟨n₂, others⟩, hrest, ⟨⟩⟩ := bind_eq_ok_iff.mp h
      obtain ⟨m₁, hnode'⟩ := collectNode_of_ok hnode
      obtain ⟨m₂, hrest'⟩ := collectEntries_of_ok hrest
      rw [hfate', hfate']
      exact ⟨m₂, bind_eq_ok_iff.mpr ⟨_, hnode', bind_eq_ok_iff.mpr ⟨_, hrest', rfl⟩⟩⟩
end

theorem hashedBytes_of_ok {n n' : Nat} {bytes : Bytes} : ∀ {files : List (List String × Bytes)},
    hashedBytes fate n files = .ok bytes → hashedBytes fate' n' files = .ok bytes
  | [], h => h
  | (path, content) :: rest, h => by
    rw [hashedBytes] at h ⊢
    split at h
    · cases h
    · obtain ⟨later, hlater, h⟩ := bind_eq_ok_iff.mp h
      rw [hfate']
      exact bind_eq_ok_iff.mpr ⟨later, hashedBytes_of_ok hlater, h⟩

/-- **A directory has one hash**, whatever failures were possible when it was taken. -/
theorem blake3OfDir_of_ok {blake3 : Bytes → String} {entries : Entries} {hash : String}
    (h : blake3OfDir fate blake3 entries = .ok hash) :
    blake3OfDir fate' blake3 entries = .ok hash := by
  obtain ⟨⟨n, files⟩, hfiles, h⟩ := bind_eq_ok_iff.mp h
  obtain ⟨bytes, hbytes, h⟩ := bind_eq_ok_iff.mp h
  obtain ⟨m, hfiles'⟩ := collectNode_of_ok hfate' hfiles
  exact bind_eq_ok_iff.mpr ⟨_, hfiles',
    bind_eq_ok_iff.mpr ⟨bytes, hashedBytes_of_ok hfate' hbytes, h⟩⟩

end

/-! ## 3. The export and the import -/

/-- The fields of the manifest that the import and the verification read. -/
structure SnapshotManifest where
  network : String
  genesisHash : String
  height : Nat
  tipHash : String
  dbBlake3 : String

/-- A snapshot directory: how reading each of its two files ends, and its `db`. -/
structure SnapshotDir where
  path : String
  manifest : Except String String
  sig : Except String String
  db : Tree

structure ImportPolicy where
  network : NetworkType
  expectedGenesis : Hash
  checkpoints : List (Nat × Hash)
  trustedSigners : List String

/-- What the import calls.  The verification opens the database, so it also says what is in the
directory afterwards. -/
structure Callees (Sig : Type) where
  parseManifest : String → Except String SnapshotManifest
  parseSig : String → Except String Sig
  toHex : Hash → String
  verifyManifestSignature : String → Sig → List String → Except Error Unit
  blake3 : Bytes → String
  verifyInstalledDb : Option Tree → NetworkType → SnapshotManifest → List (Nat × Hash) →
    Except Error Unit × Option Tree

/-- The chaindata path, and its `.pre-snapshot-<stamp>` sibling. -/
structure Disk where
  chaindata : Option Tree
  backup : Option Tree

def networkStr : NetworkType → String
  | .mainnet => "mainnet"
  | .testnet => "testnet"
  | .regtest => "regtest"

section
variable {Sig : Type} (C : Callees Sig) (moved : Outcome) (hashed fate : Nat → Outcome)
  (snap : SnapshotDir) (policy : ImportPolicy) (disk : Disk)

/-- The checks `import` makes of the manifest. -/
def checkManifest : Except Error SnapshotManifest := do
  let json ← snap.manifest.mapError (ioErr "read manifest")
  let manifest ← (C.parseManifest json).mapError .serializationError
  if policy.trustedSigners ≠ [] then
    let sigRaw ← snap.sig.mapError fun _ => .invalidState
      "snapshot requires a trusted signature but no manifest.sig was found — refusing"
    let sig ← (C.parseSig sigRaw).mapError fun e =>
      .serializationError s!"parsing manifest.sig: {e}"
    C.verifyManifestSignature json sig policy.trustedSigners
  if manifest.network ≠ networkStr policy.network then
    throw (.invalidState ("snapshot network '" ++ manifest.network ++ "' != local '" ++
      networkStr policy.network ++ "' — refusing"))
  if manifest.genesisHash ≠ C.toHex policy.expectedGenesis then
    throw (.invalidState ("snapshot genesis " ++ manifest.genesisHash ++ " != expected " ++
      C.toHex policy.expectedGenesis ++ " — refusing (wrong chain)"))
  return manifest

/-- All checks before it touches the disk; they return the manifest and the entries of `db`. -/
def checkSnapshot : Except Error (SnapshotManifest × Entries) := do
  let manifest ← checkManifest C snap policy
  let .dir db := snap.db
    | throw (.invalidState ("snapshot db/ dir missing: " ++ snap.path ++ "/db"))
  let actual ← blake3OfDir hashed C.blake3 db
  if actual ≠ manifest.dbBlake3 then
    throw (.invalidState ("snapshot integrity check FAILED: computed blake3 " ++ actual ++
      " != manifest " ++ manifest.dbBlake3))
  return (manifest, db)

/-- The rename of an existing chaindata directory, which ends as `moved`. -/
def backUp : Except Error Disk :=
  match disk.chaindata, moved with
  | none, _ => .ok disk
  | some _, .failed e _ => .error (ioErr "back up existing chaindata" e)
  | some old, .done => .ok ⟨none, some old⟩

/-- The clean-up after a failed verification: `backup_path` is set exactly when there was a
directory to move. -/
def rollBack (aside : Disk) : Disk :=
  if disk.chaindata.isSome then ⟨aside.backup, none⟩ else { aside with chaindata := none }

/-- `import`, with the clean-up after a failed verification taken to succeed. -/
def importSnapshot : Except Error SnapshotManifest × Disk :=
  match checkSnapshot C hashed snap policy, backUp moved disk with
  | .error e, _ => (.error e, disk)
  | .ok _, .error e => (.error e, disk)
  | .ok (manifest, db), .ok aside =>
    let copied := copyDirRecursive fate 0 db
    let installed : Disk := { aside with chaindata := copied.left }
    match copied.err with
    | some e => (.error e, installed)
    | none =>
      if policy.checkpoints = [] then (.ok manifest, installed) else
      match C.verifyInstalledDb installed.chaindata policy.network manifest policy.checkpoints with
      | (.ok _, left) => (.ok manifest, { aside with chaindata := left })
      | (.error e, _) => (.error e, rollBack disk aside)

/-- `export` of the directory at `dir` into `out`, where `taken` says that there is a `db`; the
steps are the creation of `out`, those of the copy and the write of the manifest. -/
def exportSnapshot (toJson : SnapshotManifest → Except String String) (dir : String)
    (chaindata : Option Tree) (taken : Bool) (out : SnapshotDir)
    (network genesisHash : String) (height : Nat) (tipHash : String) :
    Except Error (SnapshotManifest × SnapshotDir) := do
  let some (.dir entries) := chaindata
    | throw (.invalidState ("chaindata directory not found: " ++ dir))
  if taken then
    throw (.invalidState ("output already contains a db/ dir: " ++ out.path ++
      "/db (choose an empty --out)"))
  if let .failed e _ := fate 0 then throw (ioErr "create out dir" e)
  let copied := copyDirRecursive fate 1 entries
  if let some e := copied.err then throw e
  -- a copy without an error has left a directory
  let some (.dir db) := copied.left | throw (ioErr "read dir" "")
  let dbBlake3 ← blake3OfDir hashed C.blake3 db
  let manifest : SnapshotManifest := ⟨network, genesisHash, height, tipHash, dbBlake3⟩
  let json ← (toJson manifest).mapError .serializationError
  if let .failed e _ := fate copied.step then throw (ioErr "write manifest" e)
  return (manifest, { out with manifest := .ok json, db := .dir db })

/-- The import gets to the copy. -/
def Copies : Prop :=
  (∃ r, checkSnapshot C hashed snap policy = .ok r) ∧ (disk.chaindata = none ∨ moved = .done)

/-- No step of the copy fails, if there is one; or nothing was there, and the first one fails. -/
def CopyHarmless : Prop :=
  Copies C moved hashed snap policy disk →
    (∀ k < snap.db.steps, fate k = .done) ∨ disk.chaindata = none ∧ fate 0 ≠ .done

end

/-! ## 4. What an import leaves -/

section
variable {Sig : Type} {C : Callees Sig} {moved : Outcome} {hashed fate : Nat → Outcome}
  {snap : SnapshotDir} {policy : ImportPolicy} {disk : Disk}

theorem db_of_checkSnapshot {manifest : SnapshotManifest} {db : Entries}
    (h : checkSnapshot C hashed snap policy = .ok (manifest, db)) : snap.db = .dir db := by
  obtain ⟨m, -, h⟩ := bind_eq_ok_iff.mp h
  split at h
  next entries hdb =>
    obtain ⟨actual, -, h⟩ := bind_eq_ok_iff.mp h
    split at h <;> cases h
    exact hdb
  next => cases h

theorem chaindata_rollback {aside : Disk} (h : backUp moved disk = .ok aside) :
    (rollBack disk aside).chaindata = disk.chaindata := by
  unfold backUp at h
  split at h <;> cases h <;> simp [rollBack, *]

theorem backUp_eq_ok_iff : (∃ aside, backUp moved disk = .ok aside) ↔
    disk.chaindata = none ∨ moved = .done := by
  unfold backUp
  split <;> simp_all

/-- **A failed import leaves the chaindata as it was** if the copy is harmless; and only then, if
the directory there was has an entry that the snapshot has not. -/
theorem chaindata_importSnapshot_iff {e : Error}
    (h : (importSnapshot C moved hashed fate snap policy disk).1 = .error e) :
    (CopyHarmless C moved hashed fate snap policy disk →
      (importSnapshot C moved hashed fate snap policy disk).2.chaindata = disk.chaindata) ∧
    ((∀ old db, disk.chaindata = some (.dir old) → snap.db = .dir db → ¬ old.names ⊆ db.names) →
      (importSnapshot C moved hashed fate snap policy disk).2.chaindata = disk.chaindata →
      CopyHarmless C moved hashed fate snap policy disk) := by
  unfold importSnapshot at h ⊢
  unfold CopyHarmless Copies
  rw [← backUp_eq_ok_iff]
  rcases hchecks : checkSnapshot C hashed snap policy with _ | ⟨manifest, db⟩
  · simp
  rcases haside : backUp moved disk with _ | aside
  · simp
  have hdb := db_of_checkSnapshot hchecks
  simp only [hchecks, haside] at h ⊢
  rcases herr : (copyDirRecursive fate 0 db).err with _ | e'
  · obtain ⟨-, hall⟩ := copyNode_of_no_error 0 _ herr
    refine ⟨fun _ => ?_, fun _ _ _ => .inl fun k hk => ?_⟩
    · simp only [herr] at h ⊢
      split at h
      · cases h
      · split at h
        · cases h
        · simp [*, chaindata_rollback haside]
    · exact hall k (Nat.zero_le k) (by rwa [zero_add, ← hdb])
  · have hfails : ¬ ∀ k < snap.db.steps, fate k = .done := by
      intro hall
      have hnone := err_copyNode 0 (.dir db) fun k _ hk => hall k (by rw [hdb]; omega)
      cases herr.symm.trans hnone
    simp only [hfails, false_or]
    refine ⟨fun hharmless => ?_, fun hforeign hsame _ => ?_⟩
    · obtain ⟨hnone, hfirst⟩ := hharmless ⟨⟨_, rfl⟩, _, rfl⟩
      rcases left_copyDirRecursive fate 0 db with ⟨hleft, -⟩ | ⟨_, -, -, hdone⟩
      · rw [hleft, hnone]
      · exact absurd hdone hfirst
    · rcases left_copyDirRecursive fate 0 db with ⟨hleft, hfirst⟩ | ⟨copied, hleft, hnames, -⟩
      · exact ⟨hsame.symm.trans hleft, hfirst⟩
      · exact absurd hnames (hforeign copied db (hsame.symm.trans hleft) hdb)

variable {toJson : SnapshotManifest → Except String String} {dir : String} {entries : Entries}
  {taken : Bool} {out : SnapshotDir} {height : Nat} {tip : String} {manifest : SnapshotManifest}

theorem of_exportSnapshot {network genesis : String}
    (h : exportSnapshot C hashed fate toJson dir (some (.dir entries)) taken out network genesis
      height tip = .ok (manifest, snap)) :
    ∃ json hash, toJson manifest = .ok json ∧
      blake3OfDir hashed C.blake3 entries.plain = .ok hash ∧
      manifest = ⟨network, genesis, height, tip, hash⟩ ∧
      snap = { out with manifest := .ok json, db := .dir entries.plain } := by
  simp only [exportSnapshot, bind, Except.bind, pure, Except.pure, throw, throwThe,
    MonadExceptOf.throw] at h
  cases herr : (copyDirRecursive fate 1 entries).err with
  | some e =>
    simp only [herr] at h
    split_ifs at h
    split at h <;> cases h
  | none =>
    simp only [herr, copyDirRecursive_of_no_error herr] at h
    split_ifs at h
    split at h
    · cases h
    split at h
    · cases h
    next hash hhash =>
      cases hjson : toJson ⟨network, genesis, height, tip, hash⟩ with
      | error e => simp [hjson, Except.mapError] at h
      | ok json =>
        simp only [hjson, Except.mapError] at h
        split at h <;> cases h
        exact ⟨json, hash, hjson, hhash, rfl, rfl⟩

/-- **What one node exports, another installs**: an import of an exported directory for the same
chain, whose steps succeed and whose copy verifies, puts the exported database in place, without
symlinks and special files and as the verification leaves it, and keeps the chaindata there was
beside it. -/
theorem importSnapshot_exportSnapshot {summed made : Nat → Outcome}
    (hexport : exportSnapshot C summed made toJson dir (some (.dir entries)) taken out
      (networkStr policy.network) (C.toHex policy.expectedGenesis) height tip =
        .ok (manifest, snap))
    (hparse : ∀ json, toJson manifest = .ok json → C.parseManifest json = .ok manifest)
    (hsigners : policy.trustedSigners = []) (hhashed : ∀ k, hashed k = .done)
    (hfate : ∀ k, fate k = .done)
    (hverify : policy.checkpoints ≠ [] → (C.verifyInstalledDb (some (.dir entries.plain))
      policy.network manifest policy.checkpoints).1 = .ok ()) :
    importSnapshot C .done hashed fate snap policy disk =
      (.ok manifest, ⟨if policy.checkpoints = [] then some (.dir entries.plain) else
        (C.verifyInstalledDb (some (.dir entries.plain)) policy.network manifest
          policy.checkpoints).2, disk.chaindata.or disk.backup⟩) := by
  obtain ⟨json, hash, hjson, hhash, rfl, rfl⟩ := of_exportSnapshot hexport
  have hchecks : checkSnapshot C hashed { out with manifest := .ok json, db := .dir entries.plain }
      policy = .ok (⟨networkStr policy.network, C.toHex policy.expectedGenesis, height, tip, hash⟩,
        entries.plain) := by
    simp [checkSnapshot, checkManifest, hparse json hjson, hsigners,
      blake3OfDir_of_ok hhashed hhash, Except.mapError, bind, Except.bind, pure, Except.pure]
  have herr : (copyDirRecursive fate 0 entries.plain).err = none :=
    err_copyNode 0 _ fun k _ _ => hfate k
  have hleft : (copyDirRecursive fate 0 entries.plain).left = some (.dir entries.plain) := by
    rw [copyDirRecursive_of_no_error herr, entries.plain_plain]
  have haside : backUp .done disk = .ok ⟨none, disk.chaindata.or disk.backup⟩ := by
    rcases disk with ⟨_ | old, backup⟩ <;> rfl
  simp only [importSnapshot, hchecks, haside, herr, hleft]
  split_ifs with hnone
  · rfl
  · specialize hverify hnone
    rcases hresult : C.verifyInstalledDb (some (.dir entries.plain)) policy.network _
      policy.checkpoints with ⟨verdict, left⟩
    rw [hresult] at hverify
    cases hverify
    rfl

end

/-- Callees that let everything pass but the installed database, of which they say `verdict` after
they have opened it. -/
def callees (verdict : Except Error Unit) : Callees Unit where
  parseManifest _ := .ok ⟨"regtest", "", 0, "", ""⟩
  parseSig _ := .ok ()
  toHex _ := ""
  verifyManifestSignature _ _ _ := .ok ()
  blake3 _ := ""
  verifyInstalledDb
    | some (.dir db), _, _, _ => (verdict, some (.dir (.cons "LOG" (.file []) db)))
    | other, _, _, _ => (verdict, other)

def blocksDb (bytes : Bytes) : Entries := .cons "blocks.db" (.file bytes) .nil

/-- An import over a directory with one byte, on a regtest node with its genesis checkpoint. -/
def importWith (verdict : Except Error Unit) (fate : Nat → Outcome) :
    Except Error SnapshotManifest × Disk :=
  importSnapshot (callees verdict) .done (fun _ => .done) fate
    ⟨"snap", .ok "", .ok "", .dir (blocksDb [1, 2])⟩ ⟨.regtest, .zero, [(0, .zero)], []⟩
    ⟨some (.dir (blocksDb [3])), none⟩

/-- **The disk fills up while the one file is copied**: one byte of the snapshot's file is left
in place of the old one. -/
theorem diskFull_leaves_part :
    (importWith (.ok ()) (if · = 4 then .failed "disk full" (some 1) else .done)).1 =
        .error (ioErr "copy file" "disk full") ∧
      (importWith (.ok ()) (if · = 4 then .failed "disk full" (some 1) else .done)).2.chaindata =
        some (.dir (blocksDb [1])) ∧ blocksDb [1] ≠ blocksDb [3] :=
  ⟨rfl, rfl, nofun⟩

theorem unverified_taken_back :
    (importWith (.error (.invalidState "")) fun _ => .done).2.chaindata =
      some (.dir (blocksDb [3])) :=
  (chaindata_importSnapshot_iff rfl).1 fun _ => .inl fun _ _ => rfl

theorem exported_blocksDb_installed :
    importWith (.ok ()) (fun _ => .done) =
      (.ok ⟨"regtest", "", 0, "", ""⟩,
        ⟨some (.dir (.cons "LOG" (.file []) (blocksDb [1, 2]))), some (.dir (blocksDb [3]))⟩) :=
  have hexport : exportSnapshot (callees (.ok ())) (fun _ => .done) (fun _ => .done)
      (fun _ => .ok "") "data" (some (.dir (blocksDb [1, 2]))) false
      ⟨"snap", .error "", .ok "", .other⟩ "regtest" "" 0 "" =
        .ok (⟨"regtest", "", 0, "", ""⟩, ⟨"snap", .ok "", .ok "", .dir (blocksDb [1, 2])⟩) := rfl
  (importSnapshot_exportSnapshot hexport (fun _ _ => rfl) rfl (fun _ => rfl) (fun _ => rfl)
    fun _ => rfl).trans rfl

end Coincync.Snapshot
