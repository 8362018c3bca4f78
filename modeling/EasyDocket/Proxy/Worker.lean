import EasyDocket.JsString
import EasyDocket.Lib.Prog

/-!
# The CORS proxy

The worker that answers the preflight of a browser and forwards Git requests, as a program that asks fetches of an
upstream.  Header names are in lower case.  How a URL is read is the platform's, and a parameter here.
-/

namespace EasyDocket

namespace Proxy

/-! ## What the platform provides -/

/-- What the worker reads of a `URL`. -/
structure Url where
  /-- `toString()`. -/
  href : JsString
  protocol : JsString
  hostname : JsString
  pathname : JsString
  search : JsString
  /-- `searchParams.get('service')`. -/
  service : Option JsString
  deriving DecidableEq

structure Platform where
  /-- `new URL(input, base)`; `none` where it throws. -/
  newUrl : JsString → Option Url → Option Url
  /-- `String.prototype.toLowerCase`. -/
  toLowerCase : JsString → JsString

/-- What is relied on: an input that begins with `https://` is read as an https URL, and a URL that is written out is
read back as it was. -/
structure Platform.Lawful (web : Platform) : Prop where
  https : ∀ rest base u, web.newUrl (js "https://" ++ rest) base = some u → u.protocol = js "https:"
  roundTrip : ∀ input base u, web.newUrl input base = some u → web.newUrl u.href none = some u

/-- Header fields. -/
abbrev Headers := List (JsString × JsString)

namespace Headers

def get (headers : Headers) (name : JsString) : Option JsString :=
  (headers.find? (fun field => field.1 = name)).map Prod.snd

def set (headers : Headers) (name value : JsString) : Headers :=
  headers.filter (fun field => field.1 ≠ name) ++ [(name, value)]

def delete (headers : Headers) (name : JsString) : Headers := headers.filter (fun field => field.1 ≠ name)

end Headers

structure Request where
  method : JsString
  url : JsString
  headers : Headers
  body : Option JsString

structure Response where
  status : ℕ
  headers : Headers
  body : Option JsString

/-- A call of `fetch`, with `redirect: 'manual'`. -/
structure Fetch where
  url : JsString
  method : JsString
  headers : Headers
  /-- `none` is `undefined`; a request without a body has `null` here. -/
  body : Option (Option JsString)

/-- What is thrown out of the worker. -/
inductive WorkerError
  | invalidUrl
  | network

/-- A program of the worker. -/
abbrev Worker (α : Type) := Prog Fetch (fun _ => Response) WorkerError α

/-! ## Configuration -/

structure Env where
  ALLOWED_ORIGINS : Option JsString
  ALLOWED_HOSTS : Option JsString

structure Config where
  origins : List JsString
  hosts : List JsString

def ALLOWED_METHODS : List JsString := [js "GET", js "POST", js "OPTIONS"]

def GIT_SERVICES : List JsString := [js "git-upload-pack", js "git-receive-pack"]

def FORWARD_REQUEST_HEADERS : List JsString :=
  [js "accept", js "accept-encoding", js "accept-language", js "authorization", js "content-length",
    js "content-type", js "git-protocol", js "pragma", js "range", js "user-agent"]

def EXPOSE_RESPONSE_HEADERS : List JsString :=
  [js "accept-ranges", js "cache-control", js "content-encoding", js "content-length", js "content-language",
    js "content-type", js "date", js "etag", js "expires", js "last-modified", js "location", js "pragma",
    js "server", js "transfer-encoding", js "vary", js "www-authenticate", js "x-redirected-url"]

def MAX_REDIRECTS : ℕ := 5

/-- White space and line terminators, which `trim` removes. -/
def isSpace (c : CodeUnit) : Bool :=
  (9 ≤ c.val && c.val ≤ 13) || c.val = 0x20 || c.val = 0xa0 || c.val = 0x1680 ||
    (0x2000 ≤ c.val && c.val ≤ 0x200a) || c.val = 0x2028 || c.val = 0x2029 || c.val = 0x202f ||
    c.val = 0x205f || c.val = 0x3000 || c.val = 0xfeff

def trim (s : JsString) : JsString := ((s.dropWhile isSpace).reverse.dropWhile isSpace).reverse

def splitList (value : Option JsString) : List JsString :=
  (((value.getD []).splitOn (unit ',')).map trim).filter (fun entry => entry ≠ [])

def join (separator : JsString) (parts : List JsString) : JsString := (parts.intersperse separator).flatten

variable (web : Platform)

def readConfig (env : Env) : Config :=
  ⟨splitList env.ALLOWED_ORIGINS, (splitList env.ALLOWED_HOSTS).map web.toLowerCase⟩

/-! ## What is let through -/

/-- `originAllowed`: an unset list means any origin. -/
def originAllowed (origin : Option JsString) (allowed : List JsString) : Bool :=
  match origin with
  | none => true
  | some origin => allowed.isEmpty || js "*" ∈ allowed || origin ∈ allowed

/-- `hostAllowed`: an unset list means no host. -/
def hostAllowed (hostname : JsString) (allowed : List JsString) : Bool :=
  let host := web.toLowerCase hostname
  allowed.any (fun entry => host == entry || (unit '.' :: entry).isSuffixOf host)

/-- `[a-z0-9.-]`, in either case. -/
def isHostUnit (c : CodeUnit) : Bool :=
  (unit 'a' ≤ c && c ≤ unit 'z') || (unit 'A' ≤ c && c ≤ unit 'Z') || (unit '0' ≤ c && c ≤ unit '9') ||
    c = unit '.' || c = unit '-'

/-- `parseTarget`: read `/<host>/<path…>` into the upstream URL it stands for. -/
def parseTarget (url : Url) : Option Url :=
  let path := url.pathname.dropWhile (· = unit '/')
  let host := path.takeWhile (· ≠ unit '/')
  match path.dropWhile (· ≠ unit '/') with
  | [] => none
  | _ :: rest =>
    -- `path` does not begin with a slash, so the host is not empty
    if host.all isHostUnit then web.newUrl (js "https://" ++ (host ++ unit '/' :: rest ++ url.search)) none
    else none

/-- `isGitRequest`: whether this is one of the smart-HTTP requests. -/
def isGitRequest (method : JsString) (target : Url) : Bool :=
  if method = js "GET" then
    (js "/info/refs").isSuffixOf target.pathname && target.service.getD [] ∈ GIT_SERVICES
  else GIT_SERVICES.any (fun service => (unit '/' :: service).isSuffixOf target.pathname)

/-! ## Answers of the worker itself -/

def corsHeaders (allowedOrigin : Option JsString) : Headers :=
  [(js "access-control-allow-origin", allowedOrigin.getD (js "*")), (js "vary", js "Origin")]

def problem (status : ℕ) (message : JsString) (allowedOrigin : Option JsString) : Response :=
  ⟨status, (js "content-type", js "text/plain; charset=utf-8") :: corsHeaders allowedOrigin,
    some (message ++ js "\n")⟩

def preflight (request : Request) (allowedOrigin : Option JsString) : Response :=
  if allowedOrigin = none ∧ request.headers.get (js "origin") ≠ none then ⟨403, [], none⟩
  else
    let requested := request.headers.get (js "access-control-request-headers")
    ⟨204, [(js "access-control-allow-methods", join (js ", ") ALLOWED_METHODS),
      (js "access-control-allow-headers", requested.getD (join (js ", ") FORWARD_REQUEST_HEADERS)),
      (js "access-control-max-age", js "86400")] ++ corsHeaders allowedOrigin, none⟩

/-! ## Forwarding -/

/-- The headers a fetch carries. -/
def forwardedHeaders (headers : Headers) : Headers :=
  FORWARD_REQUEST_HEADERS.foldl (fun acc name => match headers.get name with
    | some value => acc.set name value
    | none => acc) []

/-- Where a response redirects to: a status of the 300s and a location that is not empty. -/
def locationOf (response : Response) : Option JsString :=
  if response.status < 300 ∨ 400 ≤ response.status then none
  else match response.headers.get (js "location") with
    | some [] => none
    | location => location

/-- `fetch(current.toString(), …)`. -/
def fetchOf (request : Request) (current : Url) : Fetch :=
  ⟨current.href, request.method, forwardedHeaders request.headers,
    if request.method = js "GET" then none else some request.body⟩

/-- What the loop of `forward` comes to after one response. -/
inductive Turn
  | answered
  | refused (problem : Response)
  | redirected (next : Url)

/-- The loop of `forward` after a response from `current`. -/
def turn (request : Request) (config : Config) (allowedOrigin : Option JsString) (current : Url)
    (response : Response) : Turn :=
  match locationOf response with
  | none => .answered
  | some location =>
    match web.newUrl location (some current) with
    | none => .refused (problem 502 (js "The upstream sent a redirect this proxy could not read.") allowedOrigin)
    | some next =>
      if hostAllowed web next.hostname config.hosts = false then
        .refused (problem 403 (js "The upstream redirected to " ++ next.hostname ++ js ", which is not allowed.")
          allowedOrigin)
      else if (fetchOf request current).body ≠ none then
        .refused (problem 502 (js "The upstream redirected a request that cannot be replayed.") allowedOrigin)
      else .redirected next

/-- End the loop with a response and the URL it is taken to be from, or with a problem, or go on. -/
def settle (current : Url) (response : Response) (next : Url → Worker (Except Response (Response × Url))) :
    Turn → Worker (Except Response (Response × Url))
  | .answered => .pure (.ok (response, current))
  | .refused problem => .pure (.error problem)
  | .redirected url => next url

/-- The loop of `forward`, with `left` redirects still to follow. -/
def follow (request : Request) (config : Config) (allowedOrigin : Option JsString) :
    ℕ → Url → Worker (Except Response (Response × Url))
  | 0, current => (Prog.request (fetchOf request current)).bind (fun response =>
      settle current response (fun next => .pure (.ok (response, next)))
        (turn web request config allowedOrigin current response))
  | left + 1, current => (Prog.request (fetchOf request current)).bind (fun response =>
      settle current response (follow request config allowedOrigin left)
        (turn web request config allowedOrigin current response))

/-- What the browser is handed of the last response. -/
def outgoing (target current : Url) (response : Response) (allowedOrigin : Option JsString) : Response :=
  let cors := (corsHeaders allowedOrigin).foldl (fun acc field => acc.set field.1 field.2) response.headers
  let exposed := cors.set (js "access-control-expose-headers") (join (js ", ") EXPOSE_RESPONSE_HEADERS)
  let redirected := if current.href ≠ target.href then exposed.set (js "x-redirected-url") current.href else exposed
  ⟨response.status, redirected.delete (js "content-encoding"), response.body⟩

/-- `forward`: forward the request, following redirects itself. -/
def forward (request : Request) (target : Url) (config : Config) (allowedOrigin : Option JsString) :
    Worker Response := do
  match ← follow web request config allowedOrigin MAX_REDIRECTS target with
  | .error refused => pure refused
  | .ok (response, current) => pure (outgoing target current response allowedOrigin)

/-- `fetch`: answer one request. -/
def fetch (request : Request) (env : Env) : Worker Response :=
  let config := readConfig web env
  let origin := request.headers.get (js "origin")
  let allowedOrigin := if originAllowed origin config.origins then origin else none
  if request.method = js "OPTIONS" then pure (preflight request allowedOrigin)
  else if request.method ∉ ALLOWED_METHODS then
    pure (problem 405 (js "Method " ++ request.method ++ js " is not used by Git over HTTP.") allowedOrigin)
  else if origin ≠ none ∧ allowedOrigin = none then
    pure (problem 403 (js "Origin " ++ origin.getD [] ++ js " is not allowed by this proxy.") none)
  else match web.newUrl request.url none with
    | none => throw .invalidUrl
    | some url =>
      match parseTarget web url with
      | none => pure (problem 400 (js "Expected a URL of the form /<host>/<path>/info/refs?service=git-upload-pack, "
          ++ js "/<host>/<path>/git-upload-pack or /<host>/<path>/git-receive-pack.") allowedOrigin)
      | some target =>
        if hostAllowed web target.hostname config.hosts = false then
          pure (problem 403 (js "This proxy does not forward to " ++ target.hostname ++ js ".") allowedOrigin)
        else if isGitRequest request.method target = false then
          pure (problem 403 (js "Only Git smart-HTTP endpoints are forwarded.") allowedOrigin)
        else forward web request target config allowedOrigin

end Proxy

end EasyDocket
