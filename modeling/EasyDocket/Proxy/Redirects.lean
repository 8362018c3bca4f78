import EasyDocket.Proxy.Worker

/-!
# What the proxy fetches

The first fetch goes to an https URL of an allowed host, at a Git endpoint.  Where an upstream redirects, the host is
checked again, and nothing else: the proxy keeps to https and to Git exactly when the redirects do.
-/

namespace EasyDocket

namespace Proxy

variable (web : Platform)

/-! ## What is promised -/

/-- A Git smart-HTTP request over https to an allowed host, with no header but those that are let through. -/
structure Proper (hosts : List JsString) (f : Fetch) : Prop where
  git : ∃ u, web.newUrl f.url none = some u ∧ u.protocol = js "https:" ∧ hostAllowed web u.hostname hosts = true ∧
    isGitRequest f.method u = true
  headers : ∀ field ∈ f.headers, field.1 ∈ FORWARD_REQUEST_HEADERS

/-- Upstream answers from a sequence; the fetches are recorded. -/
def record (responses : ℕ → Except WorkerError Response) (f : Fetch) (log : List Fetch) :
    Except WorkerError Response × List Fetch :=
  (responses log.length, log ++ [f])

/-- The fetches the worker makes for a request. -/
def fetched (request : Request) (env : Env) (responses : ℕ → Except WorkerError Response) : List Fetch :=
  ((fetch web request env).run (record responses) []).2

/-- Every fetch is proper, and there are at most six. -/
def OnlyGit (hosts : List JsString) (fetches : List Fetch) : Prop :=
  (∀ f ∈ fetches, Proper web hosts f) ∧ fetches.length ≤ 6

/-! ## The condition -/

/-- An https URL that is a Git request. -/
def OverHttps (method : JsString) (u : Url) : Prop := u.protocol = js "https:" ∧ isGitRequest method u = true

/-- The `n`th response redirects from `u` to `v`, on an allowed host. -/
def Redirects (hosts : List JsString) (responses : ℕ → Except WorkerError Response) (n : ℕ) (u v : Url) : Prop :=
  ∃ r location, responses n = .ok r ∧ locationOf r = some location ∧ web.newUrl location (some u) = some v ∧
    hostAllowed web v.hostname hosts = true

/-- The responses from the `n`th to before the `m`th redirect from `u` to `v`. -/
inductive Redirected (hosts : List JsString) (responses : ℕ → Except WorkerError Response) :
    ℕ → Url → ℕ → Url → Prop
  | here (n : ℕ) (u : Url) : Redirected hosts responses n u n u
  | next {n m : ℕ} {u v w : Url} (h : Redirects web hosts responses n u v)
      (ht : Redirected hosts responses (n + 1) v m w) : Redirected hosts responses n u m w

/-- The request asks for `target`, from an allowed origin. -/
def Asks (request : Request) (env : Env) (target : Url) : Prop :=
  originAllowed (request.headers.get (js "origin")) (readConfig web env).origins = true ∧
    ∃ url, web.newUrl request.url none = some url ∧ parseTarget web url = some target ∧
      hostAllowed web target.hostname (readConfig web env).hosts = true ∧ isGitRequest request.method target = true

/-- None of the first five redirects of a GET leaves https or the Git endpoints. -/
def RedirectsKeepToGit (request : Request) (env : Env) (responses : ℕ → Except WorkerError Response) : Prop :=
  ∀ target, Asks web request env target → request.method = js "GET" → ∀ n v, 0 < n → n ≤ MAX_REDIRECTS →
    Redirected web (readConfig web env).hosts responses 0 target n v → OverHttps (js "GET") v

/-! ## Headers -/

section Headers

variable {web}

theorem mem_set {headers : Headers} {name value : JsString} {field : JsString × JsString}
    (h : field ∈ headers.set name value) : field ∈ headers ∨ field.1 = name := by
  rcases List.mem_append.mp h with h | h
  · exact Or.inl (List.mem_of_mem_filter h)
  · rw [List.mem_singleton.mp h]
    exact Or.inr rfl

/-- What the loop of `forwardedHeaders` does for one name. -/
def copied (headers acc : Headers) (name : JsString) : Headers :=
  match headers.get name with
  | some value => acc.set name value
  | none => acc

theorem forwardedHeaders_eq (headers : Headers) :
    forwardedHeaders headers = FORWARD_REQUEST_HEADERS.foldl (copied headers) [] := rfl

theorem forwardedHeaders_allowed (headers : Headers) :
    ∀ field ∈ forwardedHeaders headers, field.1 ∈ FORWARD_REQUEST_HEADERS := by
  rw [forwardedHeaders_eq]
  -- the invariant of the loop over the list of names
  have loop : ∀ (names : List JsString) (acc : Headers), (∀ name ∈ names, name ∈ FORWARD_REQUEST_HEADERS) →
      (∀ field ∈ acc, field.1 ∈ FORWARD_REQUEST_HEADERS) →
      ∀ field ∈ names.foldl (copied headers) acc, field.1 ∈ FORWARD_REQUEST_HEADERS := by
    intro names
    induction names with
    | nil => exact fun acc _ hacc => hacc
    | cons name names ih =>
      intro acc hnames hacc
      rw [List.foldl_cons]
      refine ih _ (fun n hn => hnames n (List.mem_cons_of_mem _ hn)) ?_
      unfold copied
      cases headers.get name with
      | none => exact hacc
      | some value =>
        intro field hf
        rcases mem_set hf with hf | hf
        · exact hacc field hf
        · rw [hf]
          exact hnames name List.mem_cons_self
  exact loop _ _ (fun _ h => h) (fun _ h => absurd h List.not_mem_nil)

end Headers

/-! ## The loop -/

section Loop

variable {web} {request : Request} {config : Config} {allowedOrigin : Option JsString}
  {responses : ℕ → Except WorkerError Response}

/-- A request of the worker for a URL that was read from somewhere is proper exactly when the URL is. -/
theorem proper_fetchOf (hw : web.Lawful) {hosts : List JsString} {u : Url} (hu : ∃ input base, web.newUrl input base = some u)
    (hh : hostAllowed web u.hostname hosts = true) :
    Proper web hosts (fetchOf request u) ↔ OverHttps request.method u := by
  obtain ⟨input, base, hu⟩ := hu
  have hback := hw.roundTrip input base u hu
  constructor
  · rintro ⟨⟨v, hv, hs, -, hg⟩, -⟩
    have huv : u = v := Option.some.inj (hback.symm.trans hv)
    rw [huv]
    exact ⟨hs, hg⟩
  · rintro ⟨hs, hg⟩
    exact ⟨⟨u, hback, hs, hh, hg⟩, forwardedHeaders_allowed request.headers⟩

theorem body_get (h : request.method = js "GET") (u : Url) : (fetchOf request u).body = none := if_pos h

theorem body_post (h : request.method ≠ js "GET") (u : Url) : (fetchOf request u).body ≠ none := by
  unfold fetchOf
  rw [if_neg h]
  exact Option.some_ne_none _

/-- A response redirects where the turn of a GET goes on. -/
theorem turn_redirected {n : ℕ} {r : Response} (hr : responses n = .ok r) {u v : Url} :
    turn web request config allowedOrigin u r = .redirected v ↔
      request.method = js "GET" ∧ Redirects web config.hosts responses n u v := by
  unfold turn
  constructor
  · intro h
    cases hl : locationOf r with
    | none => rw [hl] at h; cases h
    | some location =>
      cases hn : web.newUrl location (some u) with
      | none => simp only [hl, hn] at h; cases h
      | some next =>
        simp only [hl, hn] at h
        split_ifs at h with hh hb
        cases h
        refine ⟨?_, r, location, hr, hl, hn, (Bool.not_eq_false _).mp hh⟩
        by_contra hm
        exact hb (body_post hm u)
  · rintro ⟨hm, r', location, hr', hl, hn, hh⟩
    cases hr.symm.trans hr'
    simp only [hl, hn, hh, Bool.true_eq_false, if_false, body_get hm, ne_eq, not_true_eq_false]

/-- One turn of the loop: one fetch, and another turn exactly when a GET is redirected and may be. -/
theorem follow_turn (left : ℕ) (u : Url) (log : List Fetch) :
    (∃ r, ((follow web request config allowedOrigin left u).run (record responses) log) =
        (r, log ++ [fetchOf request u]) ∧
      (left = 0 ∨ request.method ≠ js "GET" ∨ ∀ v, ¬ Redirects web config.hosts responses log.length u v)) ∨
    (∃ v n, left = n + 1 ∧ request.method = js "GET" ∧ Redirects web config.hosts responses log.length u v ∧
      (follow web request config allowedOrigin left u).run (record responses) log =
        (follow web request config allowedOrigin n v).run (record responses) (log ++ [fetchOf request u])) := by
  have hfail : ∀ (p : Response → Worker (Except Response (Response × Url))) (e : WorkerError),
      responses log.length = .error e →
      ((Prog.request (fetchOf request u)).bind p).run (record responses) log = (.error e, log ++ [fetchOf request u]) := by
    intro p e he
    rw [Prog.run_bind, Prog.run_request]
    simp only [record, he]
  have hask : ∀ (p : Response → Worker (Except Response (Response × Url))) (r : Response),
      responses log.length = .ok r → ((Prog.request (fetchOf request u)).bind p).run (record responses) log =
        (p r).run (record responses) (log ++ [fetchOf request u]) := by
    intro p r hr
    refine Prog.run_request_bind ?_
    unfold record
    rw [hr]
  cases hr : responses log.length with
  | error e =>
    refine Or.inl ⟨.error e, ?_, Or.inr (Or.inr ?_)⟩
    · cases left <;> exact hfail _ e hr
    · rintro v ⟨r, _, h, -⟩
      rw [hr] at h
      cases h
  | ok r =>
    cases ht : turn web request config allowedOrigin u r with
    | redirected v =>
      obtain ⟨hm, hv⟩ := (turn_redirected hr).mp ht
      cases left with
      | zero =>
        refine Or.inl ⟨.ok (.ok (r, v)), ?_, Or.inl rfl⟩
        rw [follow, hask _ r hr, ht]
        rfl
      | succ n =>
        refine Or.inr ⟨v, n, rfl, hm, hv, ?_⟩
        rw [follow, hask _ r hr, ht]
        rfl
    | _ =>
      refine Or.inl ⟨_, by cases left <;> rw [follow, hask _ r hr, ht] <;> rfl, Or.inr ?_⟩
      by_contra hno
      push Not at hno
      obtain ⟨hm, v, hv⟩ := hno
      cases ht.symm.trans ((turn_redirected hr).mpr ⟨hm, hv⟩)

/-- The loop fetches at most once more than it has redirects left. -/
theorem follow_length : ∀ (left : ℕ) (u : Url) (log : List Fetch),
    ((follow web request config allowedOrigin left u).run (record responses) log).2.length ≤ log.length + left + 1
  | left, u, log => by
    rcases @follow_turn web request config allowedOrigin responses left u log with ⟨r, h, -⟩ | ⟨v, n, rfl, -, -, h⟩
    · rw [h, List.length_append, List.length_singleton]
      omega
    · rw [h]
      have := follow_length n v (log ++ [fetchOf request u])
      rw [List.length_append, List.length_singleton] at this
      omega

theorem redirected_of_final {hosts : List JsString} {n m : ℕ} {u v : Url} (hn : ∀ w, ¬ Redirects web hosts responses n u w)
    (h : Redirected web hosts responses n u m v) : m = n ∧ v = u := by
  cases h with
  | here => exact ⟨rfl, rfl⟩
  | next h => exact absurd h (hn _)

theorem Redirected.le {hosts : List JsString} {n m : ℕ} {u v : Url} (h : Redirected web hosts responses n u m v) :
    n ≤ m := by
  induction h with
  | here => exact le_rfl
  | next _ _ ih => omega

theorem Redirects.unique {hosts : List JsString} {n : ℕ} {u v w : Url} (h : Redirects web hosts responses n u v)
    (h' : Redirects web hosts responses n u w) : v = w := by
  obtain ⟨r, l, hr, hl, hv, -⟩ := h
  obtain ⟨r', l', hr', hl', hw, -⟩ := h'
  cases hr.symm.trans hr'
  cases hl.symm.trans hl'
  exact Option.some.inj (hv.symm.trans hw)

/-- The fetches of the loop are proper exactly when the URL it starts at and those it is sent on to are. -/
theorem follow_proper (hw : web.Lawful) : ∀ (left : ℕ) (u : Url) (log : List Fetch),
    (∃ input base, web.newUrl input base = some u) → hostAllowed web u.hostname config.hosts = true →
    ((∀ f ∈ ((follow web request config allowedOrigin left u).run (record responses) log).2,
        Proper web config.hosts f) ↔
      (∀ f ∈ log, Proper web config.hosts f) ∧ OverHttps request.method u ∧
        (request.method = js "GET" → ∀ n v, log.length < n → n ≤ log.length + left →
          Redirected web config.hosts responses log.length u n v → OverHttps (js "GET") v))
  | left, u, log, hu, hh => by
    have hlog : (∀ f ∈ log ++ [fetchOf request u], Proper web config.hosts f) ↔
        (∀ f ∈ log, Proper web config.hosts f) ∧ OverHttps request.method u := by
      rw [List.forall_mem_append, List.forall_mem_singleton, proper_fetchOf hw hu hh]
    rcases @follow_turn web request config allowedOrigin responses left u log with
      ⟨r, h, hlast⟩ | ⟨v, k, rfl, hm, hv, h⟩
    · rw [h, hlog]
      -- the loop ends here, and the redirects do not go on
      have hend : request.method = js "GET" → ∀ n v, log.length < n → n ≤ log.length + left →
          Redirected web config.hosts responses log.length u n v → OverHttps (js "GET") v := by
        intro hm n v hlt hle hr
        rcases hlast with rfl | hp | hf
        · omega
        · exact absurd hm hp
        · have := (redirected_of_final hf hr).1
          omega
      exact ⟨fun ⟨h1, h2⟩ => ⟨h1, h2, hend⟩, fun ⟨h1, h2, _⟩ => ⟨h1, h2⟩⟩
    · have hvalid : ∃ input base, web.newUrl input base = some v := by
        obtain ⟨_, location, -, -, hv, -⟩ := hv
        exact ⟨location, some u, hv⟩
      have hvh : hostAllowed web v.hostname config.hosts = true := by
        obtain ⟨_, _, -, -, -, hv⟩ := hv
        exact hv
      rw [h, follow_proper hw k v (log ++ [fetchOf request u]) hvalid hvh, hlog, List.length_append,
        List.length_singleton]
      constructor
      · rintro ⟨⟨h1, h2⟩, hov, hrest⟩
        refine ⟨h1, h2, fun _ n w hlt hle hr => ?_⟩
        cases hr with
        | here => omega
        | next hs ht =>
          rw [hs.unique hv] at ht
          by_cases hn : n = log.length + 1
          · subst hn
            cases ht with
            | here => exact hm ▸ hov
            | next _ ht => have := ht.le; omega
          · exact hrest hm n w (by have := ht.le; omega) (by omega) ht
      · rintro ⟨h1, h2, hrest⟩
        refine ⟨⟨h1, h2⟩, ?_, fun _ n w hlt hle hr => hrest hm n w (by omega) (by omega) (.next hv hr)⟩
        rw [hm]
        exact hrest hm (log.length + 1) v (by omega) (by omega) (.next hv (.here _ _))

end Loop

/-! ## The worker -/

section Worker

variable {web} {request : Request} {env : Env} {responses : ℕ → Except WorkerError Response}

theorem parseTarget_https (hw : web.Lawful) {url target : Url} (h : parseTarget web url = some target) :
    target.protocol = js "https:" ∧ ∃ input base, web.newUrl input base = some target := by
  unfold parseTarget at h
  simp only at h
  split at h
  · cases h
  · split_ifs at h
    exact ⟨hw.https _ _ _ h, _, _, h⟩

theorem forward_run (target : Url) (config : Config) (allowedOrigin : Option JsString) (log : List Fetch) :
    ((forward web request target config allowedOrigin).run (record responses) log).2 =
      ((follow web request config allowedOrigin MAX_REDIRECTS target).run (record responses) log).2 := by
  unfold forward
  rw [Prog.bind_def, Prog.run_bind]
  split
  · split <;> rfl
  · rfl

/-- Either the worker answers by itself, or it forwards what it was asked for. -/
theorem fetched_cases (request : Request) (env : Env) (responses : ℕ → Except WorkerError Response) :
    (fetched web request env responses = [] ∧ ∀ target, Asks web request env target → request.method ≠ js "GET") ∨
    ∃ target allowedOrigin, Asks web request env target ∧
      fetched web request env responses =
        ((follow web request (readConfig web env) allowedOrigin MAX_REDIRECTS target).run (record responses) []).2 := by
  unfold fetched fetch
  simp only
  by_cases hopt : request.method = js "OPTIONS"
  · rw [if_pos hopt]
    exact Or.inl ⟨rfl, fun _ _ h => absurd (hopt.symm.trans h) (by decide)⟩
  rw [if_neg hopt]
  by_cases hmeth : request.method ∉ ALLOWED_METHODS
  · rw [if_pos hmeth]
    exact Or.inl ⟨rfl, fun _ _ h => hmeth (h ▸ by decide)⟩
  rw [if_neg hmeth]
  cases ho : originAllowed (request.headers.get (js "origin")) (readConfig web env).origins with
  | false =>
    have hne : request.headers.get (js "origin") ≠ none := by
      intro h
      rw [h] at ho
      cases ho
    simp only [Bool.false_eq_true, if_false, and_true]
    rw [if_pos hne]
    exact Or.inl ⟨rfl, fun _ h => absurd h.1 (by rw [ho]; exact Bool.false_ne_true)⟩
  | true =>
    simp only [if_true]
    rw [if_neg (fun h => h.1 h.2)]
    cases hurl : web.newUrl request.url none with
    | none =>
      refine Or.inl ⟨rfl, ?_⟩
      rintro _ ⟨-, url, h, -⟩
      cases hurl.symm.trans h
    | some url =>
      have hasks : ∀ target, Asks web request env target → parseTarget web url = some target ∧
          hostAllowed web target.hostname (readConfig web env).hosts = true ∧
          isGitRequest request.method target = true := by
        rintro target ⟨-, url', h, h'⟩
        cases hurl.symm.trans h
        exact h'
      simp only
      cases ht : parseTarget web url with
      | none => exact Or.inl ⟨rfl, fun target h => by cases ht.symm.trans (hasks target h).1⟩
      | some target =>
        simp only
        cases hh : hostAllowed web target.hostname (readConfig web env).hosts with
        | false =>
          refine Or.inl ⟨rfl, fun target' h => ?_⟩
          obtain ⟨h1, h2, -⟩ := hasks target' h
          cases ht.symm.trans h1
          cases hh.symm.trans h2
        | true =>
          cases hg : isGitRequest request.method target with
          | false =>
            refine Or.inl ⟨rfl, fun target' h => ?_⟩
            obtain ⟨h1, -, h2⟩ := hasks target' h
            cases ht.symm.trans h1
            cases hg.symm.trans h2
          | true =>
            simp only [Bool.true_eq_false, if_false]
            exact Or.inr ⟨target, _, ⟨ho, url, hurl, ht, hh, hg⟩, forward_run _ _ _ _⟩

theorem Asks.unique {t t' : Url} (h : Asks web request env t) (h' : Asks web request env t') : t = t' := by
  obtain ⟨-, url, hu, ht, -⟩ := h
  obtain ⟨-, url', hu', ht', -⟩ := h'
  cases hu.symm.trans hu'
  exact Option.some.inj (ht.symm.trans ht')

/-- The proxy fetches Git over https from allowed hosts only, six times at most, exactly when the redirects it follows
stay at Git endpoints over https. -/
theorem onlyGit_iff_redirectsKeepToGit (web : Platform) (hw : web.Lawful) (request : Request) (env : Env)
    (responses : ℕ → Except WorkerError Response) :
    OnlyGit web (readConfig web env).hosts (fetched web request env responses) ↔
      RedirectsKeepToGit web request env responses := by
  rcases @fetched_cases web request env responses with ⟨h, hno⟩ | ⟨target, origin, ha, h⟩
  · rw [h]
    refine ⟨fun _ target ha hm => absurd hm (hno target ha), fun _ => ⟨?_, ?_⟩⟩
    · exact fun _ hf => absurd hf List.not_mem_nil
    · exact Nat.zero_le _
  · obtain ⟨-, url, -, ht, hh, hg⟩ := id ha
    obtain ⟨hs, hread⟩ := parseTarget_https hw ht
    have hp := @follow_proper web request (readConfig web env) origin responses hw MAX_REDIRECTS target [] hread hh
    have hlen := @follow_length web request (readConfig web env) origin responses MAX_REDIRECTS target []
    unfold OnlyGit RedirectsKeepToGit
    rw [h, hp]
    simp only [List.length_nil, Nat.zero_add] at hlen ⊢
    constructor
    · rintro ⟨⟨-, -, hrest⟩, -⟩ target' ha' hm n v hn hle hr
      rw [ha'.unique ha] at hr
      exact hrest hm n v hn hle hr
    · intro hc
      refine ⟨⟨fun _ hf => absurd hf List.not_mem_nil, ⟨hs, hg⟩, ?_⟩, hlen⟩
      exact fun hm n v hn hle hr => hc target ha hm n v hn hle hr

end Worker

/-! ## A repository that has moved -/

section Moved

/-- Read an absolute URL that is written out in full, with no other parameter than the service. -/
def plainUrl (protocol : JsString) (rest input : JsString) : Url :=
  let tail := rest.dropWhile (· ≠ unit '/')
  let search := tail.dropWhile (· ≠ unit '?')
  ⟨input, protocol, rest.takeWhile (· ≠ unit '/'), tail.takeWhile (· ≠ unit '?'), search,
    if (js "?service=").isPrefixOf search then some (search.drop 9) else none⟩

/-- A platform that reads http and https URLs in full. -/
def plainWeb : Platform where
  newUrl input _ :=
    if (js "https://").isPrefixOf input then some (plainUrl (js "https:") (input.drop 8) input)
    else if (js "http://").isPrefixOf input then some (plainUrl (js "http:") (input.drop 7) input)
    else none
  toLowerCase s := s.map (fun c => if unit 'A' ≤ c ∧ c ≤ unit 'Z' then c + 32 else c)

theorem plainWeb_lawful : plainWeb.Lawful where
  https := by
    intro rest base u h
    have hp : (js "https://").isPrefixOf (js "https://" ++ rest) = true := List.isPrefixOf_iff_prefix.mpr ⟨rest, rfl⟩
    unfold plainWeb at h
    simp only [hp, if_true, Option.some.injEq] at h
    rw [← h]
    rfl
  roundTrip := by
    intro input base u h
    have hu : u.href = input := by
      unfold plainWeb at h
      simp only at h
      split_ifs at h <;> cases h <;> rfl
    rw [hu]
    exact h

/-- The service of a repository on an allowed host, asked for with a token. -/
def movedRequest : Request :=
  ⟨js "GET", js "https://proxy.example/github.com/you/old.git/info/refs?service=git-upload-pack",
    [(js "authorization", js "Basic dG9rZW4=")], none⟩

def movedEnv : Env := ⟨none, some (js "github.com")⟩

/-- The first response redirects. -/
def movedTo (location : JsString) : ℕ → Except WorkerError Response
  | 0 => .ok ⟨301, [(js "location", location)], none⟩
  | _ + 1 => .ok ⟨200, [], none⟩

/-- A repository that has moved on its host is still fetched properly. -/
theorem onlyGit_movedRequest : OnlyGit plainWeb (readConfig plainWeb movedEnv).hosts
    (fetched plainWeb movedRequest movedEnv
      (movedTo (js "https://github.com/you/new.git/info/refs?service=git-upload-pack"))) := by
  refine (onlyGit_iff_redirectsKeepToGit plainWeb plainWeb_lawful movedRequest movedEnv _).mpr ?_
  rintro target - - n v hn - h
  cases h with
  | here => omega
  | next h ht =>
    obtain ⟨r, location, hr, hl, hv, -⟩ := h
    cases hr
    cases (show some (js "https://github.com/you/new.git/info/refs?service=git-upload-pack") = some location from
      (by decide +kernel : _ = locationOf _).trans hl)
    cases ht with
    | here =>
      cases hv
      exact ⟨by decide +kernel, by decide +kernel⟩
    | next h _ =>
      obtain ⟨r, location, hr, hl, -⟩ := h
      cases hr
      cases hl

/-- A redirect to plain http is followed, and takes the token along. -/
theorem exists_not_onlyGit : ¬ ∀ (web : Platform), web.Lawful → ∀ (request : Request) (env : Env)
    (responses : ℕ → Except WorkerError Response),
    OnlyGit web (readConfig web env).hosts (fetched web request env responses) := by
  intro h
  have hall := (h plainWeb plainWeb_lawful movedRequest movedEnv
    (movedTo (js "http://github.com/you/new.git/info/refs?service=git-upload-pack"))).1
  have hurls : (fetched plainWeb movedRequest movedEnv
      (movedTo (js "http://github.com/you/new.git/info/refs?service=git-upload-pack"))).map Fetch.url =
    [js "https://github.com/you/old.git/info/refs?service=git-upload-pack",
      js "http://github.com/you/new.git/info/refs?service=git-upload-pack"] := by decide +kernel
  have hmem : js "http://github.com/you/new.git/info/refs?service=git-upload-pack" ∈
      (fetched plainWeb movedRequest movedEnv
        (movedTo (js "http://github.com/you/new.git/info/refs?service=git-upload-pack"))).map Fetch.url := by
    rw [hurls]
    exact List.mem_cons_of_mem _ List.mem_cons_self
  obtain ⟨f, hf, hurl⟩ := List.mem_map.mp hmem
  obtain ⟨u, hu, hs, -⟩ := (hall f hf).git
  rw [hurl] at hu
  have hp : (plainWeb.newUrl (js "http://github.com/you/new.git/info/refs?service=git-upload-pack") none).map
      Url.protocol = some (js "http:") := by decide +kernel
  rw [hu, Option.map_some, hs] at hp
  exact absurd (Option.some.inj hp) (by decide)

end Moved

end Proxy

end EasyDocket
