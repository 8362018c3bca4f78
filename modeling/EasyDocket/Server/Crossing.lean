import EasyDocket.Server.Isolation

/-!
# Pages of other origins

The middleware for browsers, between the server and pages of any origin.  What a browser does for a page is `fetch`: a
request that is no plain GET is sent only after a preflight that allows it, and an answer is shown only if it names the
origin of the page.  A page holds whatever tokens it has got.
-/

namespace EasyDocket

namespace Server

namespace Crossing

/-! ## The middleware -/

inductive Method
  | get
  | put
  | delete
  | options
  deriving DecidableEq

def Method.text : Method → GoString
  | .get => go "GET"
  | .put => go "PUT"
  | .delete => go "DELETE"
  | .options => go "OPTIONS"

/-- What the router has a handler for. -/
inductive Route
  | objects (r : Request)
  | options

def methodOf : Endpoint → Method
  | .list _ _ _ => .get
  | .get _ => .get
  | .put _ _ => .put
  | .delete _ => .delete

def Route.method : Route → Method
  | .objects r => methodOf r.endpoint
  | .options => .options

/-- A request as it arrives; a header that is missing is empty. -/
structure Arrival where
  origin : GoString
  /-- `Access-Control-Request-Method`. -/
  requestMethod : GoString
  route : Route

def allowOrigin : GoString := go "Access-Control-Allow-Origin"

def allowMethods : GoString := go "Access-Control-Allow-Methods"

def allowHeaders : GoString := go "Access-Control-Allow-Headers"

def exposeHeaders : GoString := go "Access-Control-Expose-Headers"

/-- Headers that are set before the handler that is called next sets its own. -/
def setBefore (headers : List (GoString × GoString)) (sent : Sent) : Sent :=
  sent.map (fun r => { r with headers := headers.filter (fun h => !(r.headers.map Prod.fst).contains h.1) ++ r.headers })

/-- Whether `withCORS` allows an origin. -/
def allowed (origins : List GoString) (origin : GoString) : Bool :=
  decide (origin ≠ []) && (origins.contains (go "*") || origins.contains origin)

/-- The headers of an answer to an origin that is allowed. -/
def echoed (origin : GoString) : List (GoString × GoString) :=
  [(allowOrigin, origin), (go "Vary", go "Origin"), (exposeHeaders, go "ETag")]

def preflighted : List (GoString × GoString) :=
  [(allowMethods, go "GET, PUT, DELETE, OPTIONS"), (allowHeaders, go "Authorization, Content-Type, If-None-Match"),
    (go "Access-Control-Max-Age", go "86400")]

/-- `withCORS`. -/
def withCORS (origins : List GoString) (next : Route → Fs Sent) (a : Arrival) : Fs Sent :=
  if origins = [] then next a.route
  else if a.route.method = .options ∧ a.requestMethod ≠ [] then
    if allowed origins a.origin = false then pure (some ⟨403, [], .empty⟩)
    else pure (some ⟨204, echoed a.origin ++ preflighted, .empty⟩)
  else do
    let sent ← next a.route
    pure (setBefore (if allowed origins a.origin then echoed a.origin else []) sent)

def trimRight (c : GoByte) (s : GoString) : GoString := (s.reverse.dropWhile (· = c)).reverse

/-- `ParseOrigins`. -/
def parseOrigins (raw : GoString) : List GoString :=
  (raw.splitOn (octet ',')).filterMap (fun part =>
    if trimSpace part ≠ [] then some (trimRight (octet '/') (trimSpace part)) else none)

def security : List (GoString × GoString) :=
  [(go "X-Content-Type-Options", go "nosniff"), (go "Referrer-Policy", go "no-referrer"),
    (go "Content-Security-Policy", go "default-src 'none'; frame-ancestors 'none'")]

/-- `securityHeaders`. -/
def securityHeaders (next : Route → Fs Sent) (route : Route) : Fs Sent := do
  let sent ← next route
  pure (setBefore security sent)

variable (s : FSStore) (opts : Options) (registry : Registry) (origins : List GoString)

/-- What the router calls. -/
def routed : Route → Fs Sent
  | .objects r => authenticated opts s registry r
  | .options => pure (some ⟨200, [], .empty⟩)

/-- The handler that `New` puts together. -/
def handler (a : Arrival) : Fs Sent := withCORS origins (securityHeaders (routed s opts registry)) a

/-! ## Browsers -/

/-- The value of a header. -/
def headerOf (name : GoString) (r : Response) : Option GoString :=
  (r.headers.find? (fun h => h.1 = name)).map Prod.snd

/-- The items of a header that is a list. -/
def items (value : Option GoString) : List GoString := ((value.getD []).splitOn (octet ',')).map trimSpace

/-- A script of a page asks for something. -/
structure Visit where
  origin : GoString
  request : Request
  /-- Headers that the script adds to those of the request. -/
  extra : List GoString
  choices : ℕ → Choice
  /-- An earlier preflight may still stand. -/
  cached : Bool

namespace Visit

variable (v : Visit)

def method : Method := methodOf v.request.endpoint

/-- The names of the headers that a form could not send, in lower case. -/
def headers : List GoString :=
  (if v.request.authorization = [] then [] else [go "authorization"]) ++
    (if v.request.ifNoneMatch = [] then [] else [go "if-none-match"]) ++
    (if v.method = .put then [go "content-type"] else []) ++ v.extra.map toLower

/-- Sent without a preflight. -/
def simple : Bool := v.method = .get && v.headers.isEmpty

/-- An answer names the origin of the page. -/
def admits (r : Response) : Bool := headerOf allowOrigin r = some v.origin || headerOf allowOrigin r = some (go "*")

/-- The answer to a preflight allows the request. -/
def permits (r : Response) : Bool :=
  decide (200 ≤ r.status ∧ r.status ≤ 299) && v.admits r &&
    (decide (v.method = .get) || (items (headerOf allowMethods r)).contains v.method.text) &&
    v.headers.all (fun name => ((items (headerOf allowHeaders r)).map toLower).contains name)

/-- An earlier preflight for the same still stands. -/
def stands (earlier : List Visit) : Bool :=
  v.cached && earlier.any (fun u =>
    u.origin = v.origin && u.method = v.method && v.headers.all (fun name => u.headers.contains name))

end Visit

/-- The headers that a page may read of any answer. -/
def safelisted : List GoString :=
  [go "cache-control", go "content-language", go "content-length", go "content-type", go "expires", go "last-modified",
    go "pragma"]

/-- An answer as a page may read it. -/
def readable (r : Response) : Response :=
  { r with headers := r.headers.filter (fun h =>
      safelisted.contains (toLower h.1) || ((items (headerOf exposeHeaders r)).map toLower).contains (toLower h.1)) }

/-- A preflight has to be made. -/
def Visit.asks (v : Visit) (earlier : List Visit) : Bool := !v.simple && !v.stands earlier

/-- Whether a request may be sent. -/
def permitted (earlier : List Visit) (v : Visit) : Fs Bool :=
  if v.asks earlier then do
    let sent ← handler s opts registry origins ⟨v.origin, v.method.text, .options⟩
    pure (sent.any v.permits)
  else pure true

/-- What a page gets of a request that is sent. -/
def delivered (v : Visit) : Fs (Option Response) := do
  let sent ← handler s opts registry origins ⟨v.origin, [], .objects v.request⟩
  pure ((sent.filter v.admits).map readable)

/-- What the browser does for a script, and whether a preflight was passed. -/
def fetch (earlier : List Visit) (v : Visit) : Fs (Option Response × Bool) := do
  if ← permitted s opts registry origins earlier v then
    let seen ← delivered s opts registry origins v
    pure (seen, v.asks earlier)
  else pure (none, false)

/-- Browsers and the server, with the preflights that were passed. -/
def pages : Service Unit Visit (Except StoreError (Option Response)) (Machine × List Visit) where
  domain _ := ()
  serve v m :=
    let run := (fetch s opts registry origins m.2 v).run (inTurn v.choices) (m.1, 0)
    (run.1.map Prod.fst, (run.2.1, if (run.1.map Prod.snd).toOption = some true then v :: m.2 else m.2))

/-! ## What the handlers set -/

/-- The headers that the handlers set. -/
def ownHeaders : List GoString :=
  [go "Content-Type", go "Cache-Control", go "ETag", go "Content-Length", go "WWW-Authenticate"]

/-- What is sent has no other headers. -/
def Own (sent : Sent) : Prop := ∀ r, sent = some r → ∀ h ∈ r.headers, h.1 ∈ ownHeaders

/-- Whatever a program is answered, it sends no other headers. -/
abbrev Sends (p : Fs Sent) : Prop := p.Guarded (fun _ => True) (fun _ _ => True) Own

section Handlers

variable {s opts registry}

theorem own_json {status : ℕ} {headers : List (GoString × GoString)} {body : Body} (h : ∀ x ∈ headers, x.1 ∈ ownHeaders) :
    Own (writeJSON status headers body) := by
  rintro r hr x hx
  cases hr
  rcases List.mem_append.mp hx with hx | hx
  · exact h x hx
  · rw [List.mem_singleton.mp hx]
    decide

theorem own_error (status : ℕ) (message : GoString) : Own (writeError status message) := own_json nofun

theorem own_storeError (e : StoreError) : Own (writeStoreError opts e) := by
  cases e with
  | canceled => nofun
  | endless => nofun
  | storage step e =>
    cases e with
    | canceled => nofun
    | fs e => exact own_error _ _
  | _ => exact own_error _ _

theorem sends_respond {α : Type} (p : Fs α) {f : α → Sent} (hf : ∀ a, Own (f a)) : Sends (respond opts p f) := by
  unfold respond
  refine Prog.Guarded.bind ((Prog.guarded_trivial (Fs.attempt p)).mono (fun r _ => ?_))
  cases r with
  | ok a => exact hf a
  | error e =>
    cases e with
    | endless => exact trivial
    | _ => exact own_storeError _

theorem sends_handle (account : GoString) (r : Request) : Sends (handle s opts account r) := by
  unfold handle
  cases r.endpoint with
  | list pre cursor limit =>
    show Sends (handleList s opts account pre cursor limit)
    unfold handleList
    cases listLimit limit with
    | none => exact own_error _ _
    | some n => exact sends_respond _ (fun listing => own_json (by simp [ownHeaders]))
  | get name =>
    refine sends_respond _ (fun data r hr h hh => ?_)
    simp only at hr
    split_ifs at hr
    · cases hr
      exact (show ∀ h ∈ [(go "ETag", etag opts data), (go "Cache-Control", go "private, max-age=31536000, immutable")],
        h.1 ∈ ownHeaders by simp [ownHeaders]) h hh
    · cases hr
      revert h hh
      simp [ownHeaders]
  | put name body =>
    show Sends (handlePut s opts account name body)
    unfold handlePut
    cases body with
    | none => exact own_error _ _
    | some data =>
      simp only
      split_ifs
      · exact own_error _ _
      · exact own_error _ _
      · exact sends_respond _ (fun _ => own_json (by simp [ownHeaders]))
  | delete name =>
    refine sends_respond _ (fun _ r hr h hh => ?_)
    cases hr
    exact absurd hh List.not_mem_nil

theorem sends_authenticated (r : Request) : Sends (authenticated opts s registry r) := by
  unfold authenticated
  cases accountOf opts registry r with
  | none => exact own_json (by simp [ownHeaders])
  | some account => exact sends_handle account r

end Handlers

/-! ## What an origin is answered -/

/-- Whether the configuration names an origin. -/
def listed (raw origin : GoString) : Bool :=
  decide (origin ≠ []) && (raw.splitOn (octet ',')).any (fun part =>
    trimRight (octet '/') (trimSpace part) = go "*" || trimRight (octet '/') (trimSpace part) = origin)

theorem mem_parseOrigins {raw origin : GoString} (h : origin ≠ []) :
    origin ∈ parseOrigins raw ↔ ∃ part ∈ raw.splitOn (octet ','), trimRight (octet '/') (trimSpace part) = origin := by
  unfold parseOrigins
  rw [List.mem_filterMap]
  refine exists_congr (fun part => and_congr_right (fun _ => ?_))
  by_cases hblank : trimSpace part = []
  · rw [if_neg (not_not.mpr hblank), hblank]
    exact ⟨nofun, fun heq => absurd heq.symm h⟩
  · rw [if_pos hblank, Option.some_inj]

example : parseOrigins (go " https://a.example.com/, https://b.example.com ,, ") =
    [go "https://a.example.com", go "https://b.example.com"] := by decide +kernel

/-- What the middleware allows is what the configuration names. -/
theorem allowed_parseOrigins (raw origin : GoString) : allowed (parseOrigins raw) origin = listed raw origin := by
  unfold allowed listed
  by_cases h : origin = []
  · rw [decide_eq_false (not_not.mpr h), Bool.false_and, Bool.false_and]
  · rw [decide_eq_true h, Bool.true_and, Bool.true_and, Bool.eq_iff_iff]
    simp only [Bool.or_eq_true, List.contains_iff_mem, List.any_eq_true, decide_eq_true_eq]
    rw [mem_parseOrigins h, mem_parseOrigins (by decide)]
    exact ⟨fun h => h.elim (fun ⟨p, hp, hs⟩ => ⟨p, hp, Or.inl hs⟩) (fun ⟨p, hp, hs⟩ => ⟨p, hp, Or.inr hs⟩),
      fun ⟨p, hp, h⟩ => h.imp (fun hs => ⟨p, hp, hs⟩) (fun hs => ⟨p, hp, hs⟩)⟩

/-- What a page of an origin that is allowed may read of what a handler sends. -/
def shown (r : Response) : Response :=
  { r with headers := r.headers.filter (fun h => safelisted.contains (toLower h.1) || toLower h.1 = go "etag") }

/-- An answer with headers that were set before. -/
def framed (headers : List (GoString × GoString)) (r : Response) : Response := { r with headers := headers ++ r.headers }

section Answers

variable {r : Response} {headers : List (GoString × GoString)} {sent : Sent}

/-- Headers that a handler does not set stay. -/
theorem setBefore_eq (h : ∀ r, sent = some r → ∀ x ∈ headers, ∀ y ∈ r.headers, y.1 ≠ x.1) :
    setBefore headers sent = sent.map (framed headers) := by
  cases sent with
  | none => rfl
  | some r =>
    have hkeep : headers.filter (fun x => !(r.headers.map Prod.fst).contains x.1) = headers := by
      rw [List.filter_eq_self]
      intro x hx
      rw [Bool.not_eq_true', List.contains_eq_mem, decide_eq_false_iff_not]
      intro hmem
      obtain ⟨y, hy, heq⟩ := List.mem_map.mp hmem
      exact h r rfl x hx y hy heq
    exact congrArg (fun kept => some { r with headers := kept ++ r.headers }) hkeep

theorem security_notMem : ∀ x ∈ security, x.1 ∉ ownHeaders := by decide

theorem setBefore_security (h : Own sent) : setBefore security sent = sent.map (framed security) :=
  setBefore_eq (fun r hr x hx y hy heq => security_notMem x hx (heq ▸ h r hr y hy))

theorem setBefore_echoed (h : Own sent) (origin : GoString) :
    setBefore (echoed origin) (sent.map (framed security)) = sent.map (fun r => framed (echoed origin) (framed security r)) := by
  have hecho : ∀ x ∈ echoed origin, x.1 ∉ ownHeaders ∧ ∀ y ∈ security, y.1 ≠ x.1 := by
    intro x hx
    have hname : x.1 = allowOrigin ∨ x.1 = go "Vary" ∨ x.1 = exposeHeaders := by
      simp only [echoed, List.mem_cons, List.not_mem_nil, or_false] at hx
      rcases hx with rfl | rfl | rfl
      · exact Or.inl rfl
      · exact Or.inr (Or.inl rfl)
      · exact Or.inr (Or.inr rfl)
    rcases hname with hname | hname | hname <;> rw [hname] <;> decide
  rw [setBefore_eq (fun r hr x hx y hy => ?_), Option.map_map]
  · rfl
  · obtain ⟨r', hr', rfl⟩ := Option.map_eq_some_iff.mp hr
    rcases List.mem_append.mp hy with hy | hy
    · exact (hecho x hx).2 y hy
    · exact fun heq => (hecho x hx).1 (heq ▸ h r' hr' y hy)

/-- Without the middleware's headers an answer names no origin. -/
theorem headerOf_security (hr : ∀ h ∈ r.headers, h.1 ∈ ownHeaders) : headerOf allowOrigin (framed security r) = none := by
  unfold headerOf
  rw [Option.map_eq_none_iff, List.find?_eq_none]
  intro x hx
  rw [decide_eq_true_eq]
  rcases List.mem_append.mp hx with hx | hx
  · exact (show ∀ x ∈ security, x.1 ≠ allowOrigin by decide) x hx
  · exact fun heq => (show allowOrigin ∉ ownHeaders by decide) (heq ▸ hr x hx)

theorem readable_framed (origin : GoString) :
    readable (framed (echoed origin) (framed security r)) = shown r := by
  have hexposed : headerOf exposeHeaders (framed (echoed origin) (framed security r)) = some (go "ETag") := rfl
  have hitems : (items (some (go "ETag"))).map toLower = [go "etag"] := by decide +kernel
  unfold readable shown
  rw [hexposed, hitems]
  show Response.mk _ ((echoed origin ++ (security ++ r.headers)).filter _) _ = _
  rw [List.filter_append, List.filter_append]
  have hecho : (echoed origin).filter (fun h => safelisted.contains (toLower h.1) || [go "etag"].contains (toLower h.1)) = [] := by
    rfl
  have hsecurity : security.filter (fun h => safelisted.contains (toLower h.1) || [go "etag"].contains (toLower h.1)) = [] := by
    decide +kernel
  rw [hecho, hsecurity, List.nil_append, List.nil_append]
  refine congrArg (fun headers => Response.mk r.status headers r.body) (List.filter_congr (fun h _ => ?_))
  simp

end Answers

/-- The headers that the app and its requests use. -/
def Visit.usual (v : Visit) : Bool :=
  v.headers.all (fun name => [go "authorization", go "content-type", go "if-none-match"].contains name)

/-! ## One visit -/

section Runs

variable {S : Type} {H : (q : FsRequest) → S → Except StoreError q.Reply × S}

variable {s opts registry} {raw : GoString}

/-- An answer of the server, as it leaves the middleware. -/
def passed (raw origin : GoString) (sent : Sent) : Sent :=
  sent.map (fun r => if listed raw origin then framed (echoed origin) (framed security r) else framed security r)

/-- The middleware sends what the server sends, with headers of its own. -/
theorem run_objects (origin : GoString) (r : Request) (m : S) :
    (handler s opts registry (parseOrigins raw) ⟨origin, [], .objects r⟩).run H m =
      (((authenticated opts s registry r).run H m).1.map (passed raw origin), ((authenticated opts s registry r).run H m).2) := by
  have hsecure : (securityHeaders (routed s opts registry) (.objects r)).run H m =
      (((authenticated opts s registry r).run H m).1.map (Option.map (framed security)),
        ((authenticated opts s registry r).run H m).2) := by
    refine (Prog.run_bind_pure (authenticated opts s registry r) (setBefore security) m).trans (Prod.ext ?_ rfl)
    cases hrun : ((authenticated opts s registry r).run H m).1 with
    | error e => rfl
    | ok sent => exact congrArg Except.ok (setBefore_security ((sends_authenticated r).run_post (fun _ _ => trivial) hrun))
  have hallowed := allowed_parseOrigins raw origin
  unfold handler withCORS
  by_cases hnone : parseOrigins raw = []
  · rw [hnone] at hallowed
    have hunlisted : listed raw origin = false := by
      rw [← hallowed]
      simp [allowed]
    have hpassed : passed raw origin = Option.map (framed security) := by
      funext sent
      unfold passed
      rw [hunlisted]
      rfl
    rw [if_pos hnone, hpassed]
    exact hsecure
  · rw [if_neg hnone, if_neg (fun h => h.2 rfl), hallowed]
    refine (Prog.run_bind_pure (securityHeaders (routed s opts registry) (.objects r)) _ m).trans ?_
    rw [hsecure]
    refine Prod.ext ?_ rfl
    cases hrun : ((authenticated opts s registry r).run H m).1 with
    | error e => rfl
    | ok sent =>
      have hown : Own sent := (sends_authenticated r).run_post (fun _ _ => trivial) hrun
      show Except.ok _ = Except.ok _
      congr 1
      unfold passed
      cases hlisted : listed raw origin with
      | true => exact setBefore_echoed hown origin
      | false =>
        refine (setBefore_eq (fun r _ x hx => absurd hx List.not_mem_nil)).trans ?_
        rw [Option.map_map]
        rfl

theorem text_ne_nil (method : Method) : method.text ≠ [] := by cases method <;> decide

/-- A preflight passes if the origin is listed and the headers are usual; the server is not asked. -/
theorem run_preflight (v : Visit) (m : S) :
    ∃ sent, (handler s opts registry (parseOrigins raw) ⟨v.origin, v.method.text, .options⟩).run H m = (.ok sent, m) ∧
      sent.any v.permits = (listed raw v.origin && v.usual) := by
  have hallowed := allowed_parseOrigins raw v.origin
  unfold handler withCORS
  by_cases hnone : parseOrigins raw = []
  · rw [if_pos hnone]
    refine ⟨_, rfl, ?_⟩
    rw [hnone] at hallowed
    have hunlisted : listed raw v.origin = false := by
      rw [← hallowed]
      simp [allowed]
    have hheader : headerOf allowOrigin ⟨200, security, .empty⟩ = none := by decide
    rw [hunlisted, Bool.false_and]
    show v.permits ⟨200, security, .empty⟩ = false
    unfold Visit.permits Visit.admits
    rw [hheader]
    simp
  · rw [if_neg hnone, if_pos ⟨rfl, text_ne_nil v.method⟩, hallowed]
    cases hlisted : listed raw v.origin with
    | false =>
      rw [if_pos rfl]
      refine ⟨_, rfl, ?_⟩
      show v.permits ⟨403, [], .empty⟩ = false
      unfold Visit.permits
      simp
    | true =>
      rw [if_neg (by decide)]
      refine ⟨_, rfl, ?_⟩
      have horigin : headerOf allowOrigin ⟨204, echoed v.origin ++ preflighted, .empty⟩ = some v.origin := rfl
      have hmethods : headerOf allowMethods ⟨204, echoed v.origin ++ preflighted, .empty⟩ =
        some (go "GET, PUT, DELETE, OPTIONS") := rfl
      have hheaders : headerOf allowHeaders ⟨204, echoed v.origin ++ preflighted, .empty⟩ =
        some (go "Authorization, Content-Type, If-None-Match") := rfl
      have hmethod : (items (some (go "GET, PUT, DELETE, OPTIONS"))).contains v.method.text = true := by
        cases v.method <;> decide +kernel
      have hnames : (items (some (go "Authorization, Content-Type, If-None-Match"))).map toLower =
        [go "authorization", go "content-type", go "if-none-match"] := by decide +kernel
      show v.permits ⟨204, echoed v.origin ++ preflighted, .empty⟩ = (true && v.usual)
      unfold Visit.permits Visit.admits Visit.usual
      rw [horigin, hmethods, hheaders, hmethod, hnames]
      simp

end Runs

section Visits

variable {s opts registry} {raw : GoString} {earlier : List Visit} {v : Visit} {m : Machine}

def Visit.incoming (v : Visit) : Incoming := ⟨v.request, v.choices⟩

/-- What the browser and the middleware let through to a page that may see the answer. -/
def served (raw : GoString) (v : Visit) : Bool := listed raw v.origin && v.usual

/-- Preflights are passed only where they should be. -/
def Kept (raw : GoString) (earlier : List Visit) : Prop := ∀ u ∈ earlier, served raw u = true

theorem usual_of_simple (h : v.simple = true) : v.usual = true := by
  obtain ⟨-, hempty⟩ := Bool.and_eq_true_iff.mp h
  unfold Visit.usual
  rw [List.isEmpty_iff.mp hempty]
  rfl

/-- A request that is sent at once bears no token. -/
theorem accountOf_simple (h : v.simple = true) : accountOf opts registry v.request = none := by
  obtain ⟨-, hempty⟩ := Bool.and_eq_true_iff.mp h
  have hauthorization : v.request.authorization = [] := by
    by_contra hne
    have hnil := List.isEmpty_iff.mp hempty
    unfold Visit.headers at hnil
    rw [if_neg hne] at hnil
    cases hnil
  unfold accountOf
  rw [hauthorization]
  rfl

theorem served_of_stands (hkept : Kept raw earlier) (h : v.stands earlier = true) : served raw v = true := by
  obtain ⟨-, hany⟩ := Bool.and_eq_true_iff.mp h
  obtain ⟨u, hu, hsame⟩ := List.any_eq_true.mp hany
  simp only [Bool.and_eq_true, decide_eq_true_eq] at hsame
  obtain ⟨⟨horigin, -⟩, hheaders⟩ := hsame
  obtain ⟨hlisted, husual⟩ := Bool.and_eq_true_iff.mp (hkept u hu)
  refine Bool.and_eq_true_iff.mpr ⟨horigin ▸ hlisted, List.all_eq_true.mpr (fun name hname => ?_)⟩
  exact List.all_eq_true.mp husual name (List.contains_iff_mem.mp (List.all_eq_true.mp hheaders name hname))

/-- What is sent brings what the server answers. -/
theorem run_delivered (H : (q : FsRequest) → Machine × ℕ → Except StoreError q.Reply × (Machine × ℕ)) (t : Machine × ℕ) :
    (delivered s opts registry (parseOrigins raw) v).run H t =
      (((authenticated opts s registry v.request).run H t).1.map (fun sent =>
          ((passed raw v.origin sent).filter v.admits).map readable),
        ((authenticated opts s registry v.request).run H t).2) := by
  refine (Prog.run_bind_pure (handler s opts registry (parseOrigins raw) ⟨v.origin, [], .objects v.request⟩) _ t).trans ?_
  rw [run_objects]
  refine Prod.ext ?_ rfl
  cases ((authenticated opts s registry v.request).run H t).1 with
  | ok sent => rfl
  | error e => rfl

theorem run_permitted (H : (q : FsRequest) → Machine × ℕ → Except StoreError q.Reply × (Machine × ℕ)) (t : Machine × ℕ) :
    (permitted s opts registry (parseOrigins raw) earlier v).run H t = (.ok (!v.asks earlier || served raw v), t) := by
  unfold permitted
  cases hasks : v.asks earlier with
  | false => rfl
  | true =>
    obtain ⟨sent, hrun, hpermits⟩ : ∃ sent,
        (handler s opts registry (parseOrigins raw) ⟨v.origin, v.method.text, .options⟩).run H t = (.ok sent, t) ∧
          sent.any v.permits = served raw v := run_preflight v t
    refine (Prog.run_bind_pure (handler s opts registry (parseOrigins raw) ⟨v.origin, v.method.text, .options⟩) _ t).trans ?_
    rw [hrun]
    exact congrArg (fun b => (Except.ok b, t)) hpermits

/-- What the browser does, with what the server answers. -/
theorem run_fetch (H : (q : FsRequest) → Machine × ℕ → Except StoreError q.Reply × (Machine × ℕ)) (t : Machine × ℕ) :
    (fetch s opts registry (parseOrigins raw) earlier v).run H t =
      if (!v.asks earlier || served raw v) = true then
        (((authenticated opts s registry v.request).run H t).1.map (fun sent =>
            (((passed raw v.origin sent).filter v.admits).map readable, v.asks earlier)),
          ((authenticated opts s registry v.request).run H t).2)
      else (.ok (none, false), t) := by
  refine (Prog.run_bind (permitted s opts registry (parseOrigins raw) earlier v) _ t).trans ?_
  rw [run_permitted]
  cases hpermitted : (!v.asks earlier || served raw v) with
  | false => rfl
  | true =>
    refine (Prog.run_bind_pure (delivered s opts registry (parseOrigins raw) v) _ t).trans ?_
    rw [run_delivered, if_pos rfl]
    refine Prod.ext ?_ rfl
    cases ((authenticated opts s registry v.request).run H t).1 with
    | ok sent => rfl
    | error e => rfl

/-- A page whose origin is listed sees what the server sends. -/
theorem seen_of_listed (hlisted : listed raw v.origin = true) (sent : Sent) :
    ((passed raw v.origin sent).filter v.admits).map readable = sent.map shown := by
  cases sent with
  | none => rfl
  | some r =>
    have hadmits : v.admits (framed (echoed v.origin) (framed security r)) = true := by
      have hheader : headerOf allowOrigin (framed (echoed v.origin) (framed security r)) = some v.origin := rfl
      unfold Visit.admits
      rw [hheader]
      simp
    have hpassed : passed raw v.origin (some r) = some (framed (echoed v.origin) (framed security r)) :=
      congrArg some (if_pos hlisted)
    rw [hpassed, Option.filter_some, if_pos hadmits]
    exact congrArg some (readable_framed v.origin)

/-- Any other page sees nothing. -/
theorem hidden_of_unlisted (hlisted : listed raw v.origin = false) {sent : Sent} (h : Own sent) :
    ((passed raw v.origin sent).filter v.admits).map readable = none := by
  cases sent with
  | none => rfl
  | some r =>
    have hadmits : v.admits (framed security r) = false := by
      unfold Visit.admits
      rw [headerOf_security (h r rfl)]
      rfl
    have hpassed : passed raw v.origin (some r) = some (framed security r) :=
      congrArg some (if_neg (by rw [hlisted]; exact Bool.false_ne_true))
    rw [hpassed, Option.filter_some, hadmits]
    rfl

variable (s opts registry) in
/-- What a page sees of a visit, and what the visit leaves behind. -/
theorem visit_step (hkept : Kept raw earlier) :
    ((pages s opts registry (parseOrigins raw)).serve v (m, earlier)).1 =
        (if served raw v then ((server s opts registry).serve v.incoming m).1.map (Option.map shown) else .ok none) ∧
      ((pages s opts registry (parseOrigins raw)).serve v (m, earlier)).2.1 =
        (if served raw v then ((server s opts registry).serve v.incoming m).2 else m) ∧
      Kept raw ((pages s opts registry (parseOrigins raw)).serve v (m, earlier)).2.2 := by
  have hrun : (fetch s opts registry (parseOrigins raw) earlier v).run (inTurn v.choices) (m, 0) = _ :=
    run_fetch (inTurn v.choices) (m, 0)
  unfold pages
  simp only
  rw [hrun]
  cases hserved : served raw v with
  | true =>
    obtain ⟨hlisted, -⟩ := Bool.and_eq_true_iff.mp hserved
    rw [Bool.or_true, if_pos rfl, if_pos rfl, if_pos rfl]
    refine ⟨?_, rfl, ?_⟩
    · show ((((authenticated opts s registry v.request).run (inTurn v.choices) (m, 0)).1.map _).map Prod.fst) =
        ((authenticated opts s registry v.request).run (inTurn v.choices) (m, 0)).1.map (Option.map shown)
      cases ((authenticated opts s registry v.request).run (inTurn v.choices) (m, 0)).1 with
      | ok sent => exact congrArg Except.ok (seen_of_listed hlisted sent)
      | error e => rfl
    · split_ifs
      · exact fun u hu => (List.mem_cons.mp hu).elim (fun heq => heq ▸ hserved) (hkept u)
      · exact hkept
  | false =>
    cases hasks : v.asks earlier with
    | true => exact ⟨rfl, rfl, hkept⟩
    | false =>
      have hsimple : v.simple = true := by
        by_contra hnot
        rw [Bool.not_eq_true] at hnot
        have hstands : v.stands earlier = true := by
          unfold Visit.asks at hasks
          rw [hnot] at hasks
          simpa using hasks
        rw [served_of_stands hkept hstands] at hserved
        cases hserved
      have hlisted : listed raw v.origin = false := by
        unfold served at hserved
        rwa [usual_of_simple hsimple, Bool.and_true] at hserved
      -- what is answered is the refusal, and it names no origin
      rw [run_authenticated_none (accountOf_simple hsimple), if_neg Bool.false_ne_true, if_neg Bool.false_ne_true]
      refine ⟨congrArg Except.ok (hidden_of_unlisted hlisted (own_json ?_)), rfl, hkept⟩
      decide

variable (s opts registry raw) in
/-- The run lemma; by induction on the visits. -/
theorem answers_pages : ∀ (visits : List Visit) (m : Machine) (earlier : List Visit), Kept raw earlier →
    (∀ a ∈ (pages s opts registry (parseOrigins raw)).answers visits (m, earlier), served raw a.1 = false → a.2 = .ok none) ∧
      (((pages s opts registry (parseOrigins raw)).answers visits (m, earlier)).filter (fun a => served raw a.1)).map Prod.snd =
        ((server s opts registry).answers ((visits.filter (served raw)).map Visit.incoming) m).map
          (fun a => a.2.map (Option.map shown))
  | [], _, _, _ => ⟨nofun, rfl⟩
  | v :: visits, m, earlier, hkept => by
    obtain ⟨hanswer, hmachine, hkept'⟩ := visit_step s opts registry (m := m) (v := v) hkept
    obtain ⟨hothers, hlisted⟩ :=
      answers_pages visits ((pages s opts registry (parseOrigins raw)).serve v (m, earlier)).2.1 _ hkept'
    rw [Service.answers_cons]
    cases hserved : served raw v with
    | true =>
      rw [hserved, if_pos rfl] at hanswer hmachine
      refine ⟨fun a ha hnot => ?_, ?_⟩
      · rcases List.mem_cons.mp ha with rfl | ha
        · cases hserved.symm.trans hnot
        · exact hothers a ha hnot
      · rw [List.filter_cons_of_pos (p := fun a : Visit × Except StoreError (Option Response) => served raw a.1) hserved,
          List.filter_cons_of_pos hserved, List.map_cons, List.map_cons, Service.answers_cons, List.map_cons, hanswer]
        exact congrArg (_ :: ·) (hlisted.trans (by rw [hmachine]))
    | false =>
      rw [hserved, if_neg Bool.false_ne_true] at hanswer hmachine
      refine ⟨fun a ha hnot => ?_, ?_⟩
      · rcases List.mem_cons.mp ha with rfl | ha
        · exact hanswer
        · exact hothers a ha hnot
      · have hnot : ¬ served raw v = true := by
          rw [hserved]
          exact Bool.false_ne_true
        rw [List.filter_cons_of_neg (p := fun a : Visit × Except StoreError (Option Response) => served raw a.1) hnot,
          List.filter_cons_of_neg hnot]
        exact hlisted.trans (by rw [hmachine])

/-- The headers of the app are usual. -/
theorem usual_of_app (h : v.extra = []) : v.usual = true := by
  unfold Visit.usual Visit.headers
  rw [h]
  split_ifs <;> decide

/-- Whatever pages visit, of whatever origins, with whatever tokens, headers and preflights that still stand: a page whose
origin the configuration does not name sees nothing and changes nothing, and the others see what the server answers to
them alone, without the middleware; the headers that the app sends are no hindrance. -/
theorem origins_guarded (s : FSStore) (opts : Options) (registry : Registry) (raw : GoString) (visits : List Visit)
    (m : Machine) :
    (∀ a ∈ (pages s opts registry (parseOrigins raw)).answers visits (m, []), listed raw a.1.origin = false → a.2 = .ok none) ∧
    (((pages s opts registry (parseOrigins raw)).answers visits (m, [])).filter (fun a => served raw a.1)).map Prod.snd =
      ((server s opts registry).answers ((visits.filter (served raw)).map Visit.incoming) m).map
        (fun a => a.2.map (Option.map shown)) ∧
    ∀ v : Visit, v.extra = [] → served raw v = listed raw v.origin := by
  obtain ⟨hothers, hserved⟩ := answers_pages s opts registry raw visits m [] nofun
  refine ⟨fun a ha hnot => hothers a ha ?_, hserved, fun v hextra => ?_⟩
  · unfold served
    rw [hnot]
    rfl
  · unfold served
    rw [usual_of_app hextra, Bool.and_true]

end Visits

end Crossing

end Server

end EasyDocket
