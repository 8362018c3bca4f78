import EasyDocket.Server.Held
import EasyDocket.Server.Api
import EasyDocket.Lib.Atomic

/-!
# Calls of the store

Any number of callers of one store, their requests of the file system interleaved, with the map that the store stands
for beside them: history variables say when a call acts on the map, and which files were there since a call was made.
No program reads them.
-/

namespace EasyDocket

namespace Server

/-- An account of the loader. -/
structure Account where
  id : GoString
  valid : validAccountID id = .ok ()
  deriving DecidableEq

/-- The calls that are made of a store; following the pages of a listing, and what a client does to list, are bounded. -/
inductive Op
  | put (account : Account) (name data : GoString)
  | get (account : Account) (name : GoString)
  | delete (account : Account) (name : GoString)
  | follow (account : Account) (pre : GoString) (limit : ℤ) (pages : ℕ)
  | fetch (account : Account) (pre : GoString) (pages : ℕ)
  deriving DecidableEq

/-- One of any number of callers of one operation. -/
abbrev Party := Op × ℕ

inductive Result
  | stored
  | found (data : GoString)
  | deleted
  | listed (objects : List FSStore.Object)
  /-- The client throws an error with the status. -/
  | thrown (status : ℕ)

/-- What a call returns. -/
abbrev Outcome := Except StoreError Result

/-! ## Following a listing -/

/-- Follow the cursors of a listing from page to page. -/
def followPages (page : GoString → Fs FSStore.Listing) : ℕ → GoString → List FSStore.Object → Fs (List FSStore.Object)
  | 0, _, _ => throw .endless
  | pages + 1, cursor, objects => do
    let listing ← page cursor
    if listing.nextCursor = [] then pure (objects ++ listing.objects)
    else followPages page pages listing.nextCursor (objects ++ listing.objects)

/-- What the client makes of a response: the listing, or the error that it throws. -/
def listingOf : Sent → Except ℕ FSStore.Listing
  | some ⟨_, _, .listing l⟩ => .ok l
  | some r => .error r.status
  | none => .error 0

/-- `ServerAdapter.list`; a request goes straight to the handler. -/
def fetchPages (s : FSStore) (opts : Options) (account pre : GoString) :
    ℕ → GoString → List FSStore.Object → Fs (Except ℕ (List FSStore.Object))
  | 0, _, _ => throw .endless
  | pages + 1, cursor, objects => do
    match listingOf (← handleList s opts account pre cursor []) with
    | .error status => pure (.error status)
    | .ok listing =>
      if listing.nextCursor = [] then
        pure (.ok ((objects ++ listing.objects).insertionSort (fun a b => a.name ≤ b.name)))
      else fetchPages s opts account pre pages listing.nextCursor (objects ++ listing.objects)

/-- The program of an operation. -/
def program (s : FSStore) (opts : Options) : Op → Fs Outcome
  | .put a name data => Fs.attempt (do s.Put a.id name data; pure .stored)
  | .get a name => Fs.attempt (do return .found (← s.Get a.id name))
  | .delete a name => Fs.attempt (do s.Delete a.id name; pure .deleted)
  | .follow a pre limit pages => Fs.attempt (do
    return .listed (← followPages (fun cursor => s.List a.id pre cursor limit) pages [] []))
  | .fetch a pre pages => Fs.attempt (do
    match ← fetchPages s opts a.id pre pages [] [] with
    | .ok objects => return .listed objects
    | .error status => return .thrown status)

/-! ## The map with a quota -/

inductive Answer
  | stored
  | conflict
  | refused
  | found (data : GoString)
  | missing
  | deleted
  | listed
  deriving DecidableEq

/-- What an operation does to the map: the immutable map with a quota. -/
def Op.apply (quota : ℤ) : Op → Held → Answer × Held
  | .put a name data, held =>
    match held.content a.id name with
    | some existing => (if existing = data then .stored else .conflict, held)
    | none =>
      if 0 < quota ∧ quota < (held.total a.id + data.length : ℕ) then (.refused, held)
      else (.stored, held.put ⟨a.id, name, data⟩)
  | .get a name, held =>
    match held.content a.id name with
    | some data => (.found data, held)
    | none => (.missing, held)
  | .delete a name, held => (.deleted, held.delete a.id name)
  | .follow .., held => (.listed, held)
  | .fetch .., held => (.listed, held)

/-- What a call returns for an answer. -/
def Op.Answers (quota : ℤ) : Op → Answer → Outcome → Prop
  | .put .., .stored, r => r = .ok .stored
  | .put _ name _, .conflict, r => r = .error (.alreadyExists name)
  | .put .., .refused, r => ∃ used, r = .error (.quotaExceeded used quota)
  | .get .., .found data, r => r = .ok (.found data)
  | .get _ name, .missing, r => r = .error (.notFound name)
  | .delete .., .deleted, r => r = .ok .deleted
  | _, _, _ => False

def Op.name : Op → GoString
  | .put _ name _ => name
  | .get _ name => name
  | .delete _ name => name
  | .follow .. => []
  | .fetch .. => []

/-- Whether an operation lists; listings do not act on the map. -/
def Op.lists : Op → Bool
  | .follow .. => true
  | .fetch .. => true
  | _ => false

/-- What is noted beside the calls. -/
inductive Note
  /-- A call of the file system has failed. -/
  | strike
  /-- The context of a call was found done. -/
  | gaveUp (d : Party)
  /-- A file was gone when it was asked for its size. -/
  | vanished (d : Party)

abbrev Events := List (CallEvent Party Note Outcome)

def struck (events : Events) : Prop := .noted .strike ∈ events

/-- What a call may return without having acted: the error of an invalid name, of a context that is done, or of a failed
call of the file system; after a failure the quota may also be found exceeded too early. -/
def Excuses (quota : ℤ) (events : Events) (d : Party) (r : Outcome) : Prop :=
  d.1.lists = true ∨
  (∃ fault, validateName d.1.name = .error fault ∧ r = .error (.invalidName fault)) ∨
  (.noted (.gaveUp d) ∈ events ∧ r = .error .canceled) ∨
  (struck events ∧ ((∃ step e, r = .error (.storage step e)) ∨ ∃ used, r = .error (.quotaExceeded used quota)))

/-- The map as an object that is called. -/
def objects (quota : ℤ) : Atomic Party Op Note Answer Outcome Held where
  op := Prod.fst
  apply := Op.apply quota
  answers := fun d => d.1.Answers quota
  excuses := Excuses quota

/-! ## The system -/

/-- The machine, the holders of the locks, and the history variables. -/
structure World where
  machine : Machine
  holder : GoString → Option Party
  spec : Atomic.State Party Note Answer Outcome Held
  /-- The files that were there ever since a call was made. -/
  steady : Party → Path → Bool

/-- Whether a reply decides what an operation comes to. -/
def decides (quota : ℤ) (held : Held) : Op → (q : FsRequest) → q.Reply → Bool
  | .get .., .readFile _, .ok _ => true
  | .get .., .readFile _, .error .notExist => true
  | .put .., .readFile _, .ok _ => true
  | .put a _ data, .loadUsage _, some _ => decide (0 < quota ∧ quota < (held.total a.id + data.length : ℕ))
  | .put a _ data, .storeUsage _ _, () => decide (0 < quota ∧ quota < (held.total a.id + data.length : ℕ))
  | .put .., .rename _ _, .ok () => true
  | .delete .., .remove _, .ok () => true
  | .delete .., .remove _, .error .notExist => true
  | _, _, _ => false

/-- What is noted of a request. -/
def notes (d : Party) (c : Choice) (q : FsRequest) (m : Machine) : List Note :=
  (if c.strikes q m then [.strike] else []) ++
    match q with
    | .ctxErr => if c.givenUp then [.gaveUp d] else []
    | .info p => if m.disk.fileAt p = none then [.vanished d] else []
    | _ => []

def holderAfter (d : Party) (q : FsRequest) (holder : GoString → Option Party) : GoString → Option Party :=
  match q with
  | .lock account => Function.update holder account (some d)
  | .unlock account => Function.update holder account none
  | _ => holder

section System

variable (s : FSStore) (opts : Options)

/-- What a request leaves of the map and the calls. -/
def specAfter (d : Party) (c : Choice) (q : FsRequest) (w : World) : Atomic.State Party Note Answer Outcome Held :=
  let spec := (notes d c q w.machine).foldl Atomic.State.note w.spec
  if decides s.quota w.spec.object d.1 q (serve c q w.machine).1 then spec.act d (objects s.quota) else spec

/-- What a request leaves. -/
def World.after (d : Party) (c : Choice) (q : FsRequest) (w : World) : World where
  machine := (serve c q w.machine).2
  holder := holderAfter d q w.holder
  spec := specAfter s d c q w
  steady := fun d p => w.steady d p && ((serve c q w.machine).2.disk.fileAt p).isSome

def World.enter (d : Party) (w : World) : World :=
  { w with
    spec := w.spec.call d
    steady := Function.update w.steady d (fun p => (w.machine.disk.fileAt p).isSome) }

def World.leave (d : Party) (r : Except StoreError Outcome) (w : World) : World :=
  match r with
  | .ok r => { w with spec := w.spec.finish d r }
  | .error _ => { w with spec := w.spec.lose d }

def World.crash (d : Party) (w : World) : World := { w with spec := w.spec.lose d }

/-- The callers of a store.  A lock is waited for; a call that is lost keeps its lock. -/
def calls : Threads Party FsRequest FsRequest.Reply StoreError Outcome World where
  body := fun d => program s opts d.1
  enter := World.enter
  step := fun d q w r w' => (∀ account, q = .lock account → w.holder account = none) ∧
    ∃ c, r = .ok (serve c q w.machine).1 ∧ w' = w.after s d c q
  leave := World.leave
  env := fun _ _ => False
  crash := World.crash

end System

end Server

end EasyDocket
