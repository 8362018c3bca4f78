import EasyDocket.Server.Files

/-!
# The handlers

The handlers of the server as programs of the store.  The router is outside: the name of an object is any string, and
so are the values of a query.
-/

namespace EasyDocket

namespace Server

/-! ## Numbers -/

def digitValue (c : GoByte) : ℕ := c.val - (octet '0').val

/-- `strconv.Atoi`. -/
def atoi (s : GoString) : Option ℤ :=
  let (negative, digits) := match s with
    | c :: rest => if c = octet '-' then (true, rest) else if c = octet '+' then (false, rest) else (false, s)
    | [] => (false, [])
  if digits = [] ∨ digits.any (fun c => !isDigit c) then none
  else
    let n : ℤ := digits.foldl (fun n c => 10 * n + digitValue c) 0
    let n := if negative then -n else n
    if -2 ^ 63 ≤ n ∧ n < 2 ^ 63 then some n else none

/-- `strconv.Itoa` of a length. -/
def itoa (n : ℕ) : GoString := go (toString n)

def hexDigit (n : ℕ) : GoByte := octet (if n < 10 then Char.ofNat (n + '0'.toNat) else Char.ofNat (n - 10 + 'a'.toNat))

/-- `hex.EncodeToString`. -/
def hexEncode (data : GoString) : GoString := data.flatMap (fun c => [hexDigit (c.val / 16), hexDigit (c.val % 16)])

/-! ## Requests and responses -/

/-- The fields of the server that do not change, and what it uses from outside. -/
structure Options where
  maxObjectSize : ℤ
  sha256 : GoString → GoString
  /-- `%q` of the first rune of a string. -/
  quoteRune : GoString → GoString

/-- The size that `New` settles on. -/
def Options.limit (opts : Options) : ℤ := if opts.maxObjectSize ≤ 0 then 8 * 2 ^ 20 else opts.maxObjectSize

inductive Endpoint
  | list (pre cursor limit : GoString)
  | get (name : GoString)
  /-- The body, if it can be read. -/
  | put (name : GoString) (body : Option GoString)
  | delete (name : GoString)

/-- What the server reads of a request. -/
structure Request where
  authorization : GoString
  ifNoneMatch : GoString
  endpoint : Endpoint

inductive Body
  | empty
  | error (message : GoString)
  | listing (l : FSStore.Listing)
  | bytes (data : GoString)
  | created (name : GoString) (size : ℕ)

structure Response where
  status : ℕ
  headers : List (GoString × GoString)
  body : Body

/-- What is sent for a request, if anything. -/
abbrev Sent := Option Response

/-- `ETag`. -/
def etag (opts : Options) (data : GoString) : GoString := go "\"" ++ hexEncode ((opts.sha256 data).take 16) ++ go "\""

def contentTypeJson : GoString × GoString := (go "Content-Type", go "application/json; charset=utf-8")

/-- `writeJSON`. -/
def writeJSON (status : ℕ) (headers : List (GoString × GoString)) (body : Body) : Sent :=
  some ⟨status, headers ++ [contentTypeJson], body⟩

/-- `writeError`. -/
def writeError (status : ℕ) (message : GoString) : Sent := writeJSON status [] (.error message)

/-- The text of an error that wraps `ErrInvalidName`. -/
def NameFault.message (opts : Options) (fault : NameFault) : GoString :=
  go "invalid object name: " ++ match fault with
    | .tooLong => go "too long"
    | .traversal => go "path traversal"
    | .shape => go "expected vaults/<vault>/ops/<stamp>.edk"
    | .prefixTooLong => go "prefix too long"
    | .character rest => go "invalid character " ++ opts.quoteRune rest ++ go " in prefix"
    | .account => go "account"
    | .escapes => go "escapes account root"

/-- `writeStoreError`; for a client that hung up nothing is sent. -/
def writeStoreError (opts : Options) : StoreError → Sent
  | .notFound _ => writeError 404 (go "object not found")
  | .invalidName fault => writeError 400 (fault.message opts)
  | .alreadyExists _ => writeError 409 (go "an object with different contents already exists under that name")
  | .quotaExceeded _ _ => writeError 507 (go "storage quota exceeded")
  | .canceled => none
  | .storage _ .canceled => none
  | .storage _ (.fs _) => writeError 500 (go "internal error")
  | .endless => none

/-! ## Handlers -/

section Handlers

variable (s : FSStore) (opts : Options)

/-- Answer with what the store returns, or with its error. -/
def respond {α : Type} (p : Fs α) (f : α → Sent) : Fs Sent := do
  match ← Fs.attempt p with
  | .ok a => pure (f a)
  | .error .endless => throw .endless
  | .error e => pure (writeStoreError opts e)

/-- The limit of `handleList`. -/
def listLimit (raw : GoString) : Option ℤ :=
  if raw = [] then some 1000
  else match atoi raw with
    | none => none
    | some parsed => if parsed ≤ 0 then none else some (min parsed 1000)

def handleList (account pre cursor limit : GoString) : Fs Sent :=
  match listLimit limit with
  | none => pure (writeError 400 (go "limit must be a positive integer"))
  | some limit => respond opts (s.List account pre cursor limit) (fun listing =>
      writeJSON 200 [(go "Cache-Control", go "no-store")] (.listing listing))

def handleGet (account name ifNoneMatch : GoString) : Fs Sent :=
  respond opts (s.Get account name) (fun data =>
    let headers := [(go "ETag", etag opts data), (go "Cache-Control", go "private, max-age=31536000, immutable")]
    if ifNoneMatch = etag opts data then some ⟨304, headers, .empty⟩
    else some ⟨200, headers ++ [(go "Content-Type", go "application/octet-stream"),
      (go "Content-Length", itoa data.length)], .bytes data⟩)

def handlePut (account name : GoString) (body : Option GoString) : Fs Sent :=
  match body with
  | none => pure (writeError 400 (go "could not read request body"))
  | some data =>
    if opts.limit < data.length then pure (writeError 413 (go "object exceeds the server's size limit"))
    else if data = [] then pure (writeError 400 (go "object must not be empty"))
    else respond opts (s.Put account name data) (fun _ =>
      writeJSON 201 [(go "ETag", etag opts data)] (.created name data.length))

def handleDelete (account name : GoString) : Fs Sent :=
  respond opts (s.Delete account name) (fun _ => some ⟨204, [], .empty⟩)

/-- The handler of an endpoint, for an account. -/
def handle (account : GoString) (r : Request) : Fs Sent :=
  match r.endpoint with
  | .list pre cursor limit => handleList s opts account pre cursor limit
  | .get name => handleGet s opts account name r.ifNoneMatch
  | .put name body => handlePut s opts account name body
  | .delete name => handleDelete s opts account name

end Handlers

end Server

end EasyDocket
