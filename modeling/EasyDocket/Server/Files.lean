import EasyDocket.Server.Names
import EasyDocket.Lib.Table
import EasyDocket.Lib.Prog

/-!
# The file store

`FSStore` as programs over the file system, the cache of usages and the locks of the accounts.  Paths are given by their
segments.  A failed call of the file system is a reply, as in Go; only returns with an error are errors of a program.
-/

namespace EasyDocket

namespace Server

/-! ## The file system -/

/-- The segments of an absolute path. -/
abbrev Path := List GoString

structure File where
  path : Path
  content : GoString

structure Disk where
  files : Table File.path
  dirs : Table (fun p : Path => p)

/-- Why a call failed: the file does not exist, or anything else. -/
inductive FsError
  | notExist
  | other
  deriving DecidableEq

/-- A directory entry. -/
structure Entry where
  name : GoString
  isDir : Bool

/-- What is read of a `FileInfo`. -/
structure FileInfo where
  isDir : Bool
  size : ℕ

namespace Disk

def fileAt (disk : Disk) (p : Path) : Option GoString := (disk.files.get? p).map File.content

def isDirAt (disk : Disk) (p : Path) : Bool := (disk.dirs.get? p).isSome

/-- The name of `q` in the directory `p`, if that is where it is. -/
def childOf (p q : Path) : Option GoString :=
  match q.reverse with
  | name :: rest => if rest.reverse = p then some name else none
  | [] => none

/-- The entries of a directory, in the order of their names. -/
def entries (disk : Disk) (p : Path) : List Entry :=
  let files := disk.files.rows.filterMap (fun f => (childOf p f.path).map (fun name => (⟨name, false⟩ : Entry)))
  let dirs := disk.dirs.rows.filterMap (fun q => (childOf p q).map (fun name => (⟨name, true⟩ : Entry)))
  (files ++ dirs).insertionSort (fun a b => a.name ≤ b.name)

def create (disk : Disk) (p : Path) (content : GoString) : Disk := { disk with files := disk.files.put ⟨p, content⟩ }

def delete (disk : Disk) (p : Path) : Disk := { disk with files := disk.files.delete p }

/-- Every directory on the way to `p`, and `p`. -/
def makeDirs (disk : Disk) (p : Path) : Disk := { disk with dirs := p.inits.foldl Table.put disk.dirs }

def stat (disk : Disk) (p : Path) : Except FsError FileInfo :=
  match disk.fileAt p with
  | some content => .ok ⟨false, content.length⟩
  | none => if disk.isDirAt p then .ok ⟨true, 0⟩ else .error .notExist

end Disk

/-! ## Requests -/

/-- What the store asks for. -/
inductive FsRequest
  /-- `ctx.Err()`: whether the request was given up. -/
  | ctxErr
  | lock (account : GoString)
  | unlock (account : GoString)
  | loadUsage (account : GoString)
  | storeUsage (account : GoString) (total : ℕ)
  | deleteUsage (account : GoString)
  | readFile (p : Path)
  | mkdirAll (p : Path)
  | createTemp (dir : Path)
  | write (tmp : Path) (data : GoString)
  | sync (tmp : Path)
  | close (tmp : Path)
  | chmod (tmp : Path)
  | rename (tmp p : Path)
  | remove (p : Path)
  | lstat (p : Path)
  | readDir (p : Path)
  /-- `entry.Info()`. -/
  | info (p : Path)

def FsRequest.Reply : FsRequest → Type
  | .ctxErr => Bool
  | .lock _ => Unit
  | .unlock _ => Unit
  | .loadUsage _ => Option ℕ
  | .storeUsage _ _ => Unit
  | .deleteUsage _ => Unit
  | .readFile _ => Except FsError GoString
  | .mkdirAll _ => Except FsError Unit
  | .createTemp _ => Except FsError Path
  | .write _ _ => Except FsError Unit
  | .sync _ => Except FsError Unit
  | .close _ => Except FsError Unit
  | .chmod _ => Except FsError Unit
  | .rename _ _ => Except FsError Unit
  | .remove _ => Except FsError Unit
  | .lstat _ => Except FsError FileInfo
  | .readDir _ => Except FsError (List Entry)
  | .info _ => Except FsError FileInfo

/-- What a walk was stopped by. -/
inductive WalkError
  | fs (e : FsError)
  | canceled
  deriving DecidableEq

inductive StoreError
  | invalidName (fault : NameFault)
  | notFound (name : GoString)
  | alreadyExists (name : GoString)
  | quotaExceeded (used : ℕ) (quota : ℤ)
  | canceled
  /-- `storage: <step>: <error>`. -/
  | storage (step : GoString) (e : WalkError)
  /-- The model has gone on for longer than it was allowed to. -/
  | endless

/-- A program of the store. -/
abbrev Fs (α : Type) := Prog FsRequest FsRequest.Reply StoreError α

namespace Fs

def ask (q : FsRequest) : Fs q.Reply := Prog.request q

/-- `ctx.Err() != nil`. -/
def ctxErr : Fs Bool := ask .ctxErr

/-- Run a program to its end, whether it returns an error or not. -/
def attempt {α : Type} (p : Fs α) : Fs (Except StoreError α) :=
  Prog.tryCatch (p >>= fun a => pure (.ok a)) (fun e => pure (.error e))

def ofExcept {α : Type} : Except StoreError α → Fs α
  | .ok a => pure a
  | .error e => throw e

/-- Return a failure of a step. -/
def check {α : Type} (step : GoString) : Except FsError α → Fs α
  | .ok a => pure a
  | .error e => throw (.storage step (.fs e))

end Fs

/-! ## Walking a directory -/

/-- What a visit of a walk comes to. -/
inductive Visit (σ : Type)
  | next (acc : σ)
  | skipAll (acc : σ)
  | fail (e : WalkError) (acc : σ)

def Visit.acc {σ : Type} : Visit σ → σ
  | .next acc => acc
  | .skipAll acc => acc
  | .fail _ acc => acc

/-- The function a walk calls for every entry. -/
abbrev WalkFunc (σ : Type) := σ → Path → Entry → Option FsError → Fs (Visit σ)

/-- `walkDir`, to a depth.  After a directory could not be read, the functions of the store never go on. -/
def walkDir {σ : Type} (fn : WalkFunc σ) : ℕ → Path → Entry → σ → Fs (Visit σ)
  | 0, _, _, _ => throw .endless
  | depth + 1, p, d, acc => do
    match ← fn acc p d none with
    | .next acc =>
      if d.isDir = false then pure (.next acc)
      else
        match ← Fs.ask (.readDir p) with
        | .error e => fn acc p d (some e)
        | .ok entries =>
          (entries : List Entry).foldlM (fun v (d' : Entry) => match v with
            | .next acc => walkDir fn depth (p ++ [d'.name]) d' acc
            | stopped => pure stopped) (Visit.next acc)
    | stopped => pure stopped

/-- `filepath.WalkDir`. -/
def WalkDir {σ : Type} (fn : WalkFunc σ) (depth : ℕ) (root : Path) (acc : σ) : Fs (Visit σ) := do
  match ← Fs.ask (.lstat root) with
  | .error e => fn acc root ⟨[], false⟩ (some e)
  | .ok info => walkDir fn depth root ⟨root.getLastD [], info.isDir⟩ acc

/-! ## The store -/

/-- The fields of an `FSStore` that do not change, and how deep the model walks: an object is four levels down. -/
structure FSStore where
  root : GoString
  isRoot : IsRoot root
  quota : ℤ
  depth : ℕ
  deep : 5 ≤ depth

namespace FSStore

variable (s : FSStore)

/-- `path`, as segments. -/
def path (account name : GoString) : Fs Path :=
  match Server.path s.root account name with
  | .ok full => pure (segments full)
  | .error fault => throw (.invalidName fault)

def validName (name : GoString) : Fs Unit :=
  match validateName name with
  | .ok () => pure ()
  | .error fault => throw (.invalidName fault)

def validPrefix (pre : GoString) : Fs Unit :=
  match validatePrefix pre with
  | .ok () => pure ()
  | .error fault => throw (.invalidName fault)

/-- Return if the context is done. -/
def alive : Fs Unit := do
  if ← Fs.ctxErr then throw .canceled

/-- The function `usage` walks with. -/
def usageFn : WalkFunc ℕ := fun total p d err =>
  match err with
  | some .notExist => pure (.skipAll total)
  | some e => pure (.fail (.fs e) total)
  | none =>
    if d.isDir then pure (.next total)
    else do
      match ← Fs.ask (.info p) with
      | .error e => pure (.fail (.fs e) total)
      | .ok info => pure (.next (total + info.size))

/-- `usage`. -/
def usage (account : GoString) : Fs ℕ := do
  match ← Fs.ask (.loadUsage account) with
  | some cached => pure cached
  | none => do
    let base ← s.path account []
    let walked ← WalkDir usageFn s.depth base 0
    match walked with
    | .fail e total =>
      if e = .fs .notExist then do
        Fs.ask (.storeUsage account total)
        pure total
      else throw (.storage (go "usage") e)
    | stopped => do
      Fs.ask (.storeUsage account stopped.acc)
      pure stopped.acc

/-- `Put` between the creation of the temporary file and its removal. -/
def fill (account : GoString) (tmp p : Path) (data : GoString) : Fs Unit := do
  match ← Fs.ask (.write tmp data) with
  | .error e => do
    let _ ← Fs.ask (.close tmp)
    throw (.storage (go "write") (.fs e))
  | .ok () =>
    match ← Fs.ask (.sync tmp) with
    | .error e => do
      let _ ← Fs.ask (.close tmp)
      throw (.storage (go "sync") (.fs e))
    | .ok () => do
      Fs.check (go "close") (← Fs.ask (.close tmp))
      Fs.check (go "chmod") (← Fs.ask (.chmod tmp))
      Fs.check (go "rename") (← Fs.ask (.rename tmp p))
      Fs.ask (.deleteUsage account)

/-- `Put` once it is known that the name is free and the quota allows. -/
def store (account : GoString) (p : Path) (data : GoString) : Fs Unit := do
  Fs.check (go "create dir") (← Fs.ask (.mkdirAll p.dropLast))
  let tmp ← Fs.check (go "create temp") (← Fs.ask (.createTemp p.dropLast))
  let r ← Fs.attempt (fill account tmp p data)
  let _ ← Fs.ask (.remove tmp)
  Fs.ofExcept r

/-- The quota check of `Put`. -/
def withinQuota (account : GoString) (data : GoString) : Fs Unit := do
  if 0 < s.quota then
    let used ← s.usage account
    if (used : ℤ) + data.length > s.quota then throw (.quotaExceeded used s.quota)

/-- `Put` under the lock of the account. -/
def putLocked (account name : GoString) (p : Path) (data : GoString) : Fs Unit := do
  alive
  match ← Fs.ask (.readFile p) with
  | .ok existing => if existing = data then pure () else throw (.alreadyExists name)
  | .error .notExist => do
    s.withinQuota account data
    store account p data
  | .error e => throw (.storage (go "read existing") (.fs e))

/-- `Put`. -/
def Put (account name data : GoString) : Fs Unit := do
  validName name
  let p ← s.path account name
  Fs.ask (.lock account)
  let r ← Fs.attempt (s.putLocked account name p data)
  Fs.ask (.unlock account)
  Fs.ofExcept r

/-- `Get`. -/
def Get (account name : GoString) : Fs GoString := do
  validName name
  alive
  let p ← s.path account name
  match ← Fs.ask (.readFile p) with
  | .ok data => pure data
  | .error .notExist => throw (.notFound name)
  | .error e => throw (.storage (go "read") (.fs e))

/-- `Delete` under the lock of the account. -/
def deleteLocked (account : GoString) (p : Path) : Fs Unit := do
  match ← Fs.ask (.remove p) with
  | .error .other => throw (.storage (go "delete") (.fs .other))
  | _ => Fs.ask (.deleteUsage account)

/-- `Delete`. -/
def Delete (account name : GoString) : Fs Unit := do
  validName name
  alive
  let p ← s.path account name
  Fs.ask (.lock account)
  let r ← Fs.attempt (deleteLocked account p)
  Fs.ask (.unlock account)
  Fs.ofExcept r

/-- What is listed of an object. -/
structure Object where
  name : GoString
  size : ℕ
  deriving DecidableEq

/-- One page of a listing; the cursor is empty on the last one. -/
structure Listing where
  objects : List Object
  nextCursor : GoString

/-- The function `List` walks with. -/
def listFn (base : Path) (pre cursor : GoString) : WalkFunc (List Object) := fun objects p d err =>
  match err with
  | some .notExist => pure (.skipAll objects)
  | some e => pure (.fail (.fs e) objects)
  | none => do
    if ← Fs.ctxErr then pure (.fail .canceled objects)
    else if d.isDir || (go ".tmp-").isPrefixOf d.name then pure (.next objects)
    else
      let name := joinSlash (p.drop base.length)
      if ¬ pre <+: name ∨ name ≤ cursor then pure (.next objects)
      else
        match ← Fs.ask (.info p) with
        | .error e => pure (.fail (.fs e) objects)
        | .ok info => pure (.next (objects ++ [⟨name, info.size⟩]))

/-- The objects a walk has come to; a missing file ends it without an error. -/
def walked : Visit (List Object) → Fs (List Object)
  | .fail e objects => if e = .fs .notExist then pure objects else throw (.storage (go "list") e)
  | stopped => pure stopped.acc

/-- The first page of sorted objects. -/
def pageOf (limit : ℕ) (objects : List Object) : Listing :=
  let sorted := objects.insertionSort (fun a b => a.name ≤ b.name)
  if limit < sorted.length then ⟨sorted.take limit, ((sorted[limit - 1]?).map Object.name).getD []⟩
  else ⟨sorted, []⟩

/-- `List`. -/
def List (account pre cursor : GoString) (limit : ℤ) : Fs Listing := do
  validPrefix pre
  let limit := if limit ≤ 0 then 1000 else limit.toNat
  let base ← s.path account []
  let visit ← WalkDir (listFn base pre cursor) s.depth base []
  let objects ← walked visit
  pure (pageOf limit objects)

end FSStore

end Server

end EasyDocket
