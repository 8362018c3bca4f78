import EasyDocket.JsString
import EasyDocket.Lib.Prog
import EasyDocket.Lib.Table
import Mathlib.Data.List.Sort

/-!
# A destination in an object store

`S3Adapter` over a bucket that other programs use too.  Every object of the app has a key under the prefix of the target, and a
listing is put together from pages, between which others may write.

The service and its SDK are outside: `Serves` says what is relied on.  The order of the keys and what a continuation token
stands for are parameters.
-/

namespace EasyDocket

namespace S3

open Prog (request)

/-! ## Keys -/

/-- What the adapter reads of a `S3Target`. -/
structure Target where
  /-- `prefix`: an optional key prefix so one bucket can host several apps. -/
  keyPrefix : JsString

def slash : CodeUnit := unit '/'

/-- `replace(/^\/+|\/+$/g, '')`. -/
def trimSlashes (s : JsString) : JsString := ((s.dropWhile (· = slash)).reverse.dropWhile (· = slash)).reverse

namespace Target

variable (t : Target)

/-- `key`. -/
def key (name : JsString) : JsString :=
  if trimSlashes t.keyPrefix ≠ [] then trimSlashes t.keyPrefix ++ slash :: name else name

/-- `unkey`. -/
def unkey (key : JsString) : JsString :=
  if trimSlashes t.keyPrefix ≠ [] ∧ (trimSlashes t.keyPrefix ++ [slash]).isPrefixOf key then
    key.drop ((trimSlashes t.keyPrefix).length + 1)
  else key

/-- What the keys of the app begin with. -/
def root : JsString := t.key []

theorem key_eq (name : JsString) : t.key name = t.root ++ name := by
  unfold root key
  split_ifs
  · rw [List.append_assoc]
    rfl
  · rfl

@[simp] theorem unkey_key (name : JsString) : t.unkey (t.key name) = name := by
  unfold unkey key
  by_cases h : trimSlashes t.keyPrefix = []
  · rw [if_neg (fun hp => hp.1 h), if_neg (not_not.mpr h)]
  · have hsplit : trimSlashes t.keyPrefix ++ slash :: name = (trimSlashes t.keyPrefix ++ [slash]) ++ name := by
      rw [List.append_assoc]
      rfl
    have hpre : (trimSlashes t.keyPrefix ++ [slash]).isPrefixOf ((trimSlashes t.keyPrefix ++ [slash]) ++ name) = true :=
      List.isPrefixOf_iff_prefix.mpr (List.prefix_append _ _)
    rw [if_pos h, hsplit, if_pos ⟨h, hpre⟩]
    exact List.drop_left' (by simp)

theorem key_injective {name name' : JsString} (h : t.key name = t.key name') : name = name' := by
  rw [← t.unkey_key name, h, t.unkey_key]

/-- What is under the key of a prefix is the key of a name with the prefix. -/
theorem key_of_prefix {pre key : JsString} (h : t.key pre <+: key) : ∃ name, key = t.key name ∧ pre <+: name := by
  obtain ⟨rest, rfl⟩ := h
  exact ⟨pre ++ rest, by rw [t.key_eq, t.key_eq, List.append_assoc], List.prefix_append _ _⟩

theorem key_prefix_iff {pre name : JsString} : t.key pre <+: t.key name ↔ pre <+: name := by
  rw [t.key_eq, t.key_eq]
  exact List.prefix_append_right_inj _

end Target

/-! ## The service -/

structure Stored where
  key : JsString
  body : List (Fin 256)

/-- The objects of a bucket. -/
abbrev Bucket := Table Stored.key

/-- An entry of a page; the SDK does not promise its fields. -/
structure Entry where
  key : Option JsString
  size : Option ℕ

structure Page (Token : Type) where
  contents : List Entry
  nextContinuationToken : Option Token

/-- The body of a response, which may break off while it is read. -/
abbrev Body := Option (List (Fin 256))

inductive Command (Token : Type)
  | listObjectsV2 (pre : JsString) (token : Option Token)
  | getObject (key : JsString)
  | putObject (key : JsString) (body : List (Fin 256))
  | deleteObject (key : JsString)

@[reducible] def Command.Reply {Token : Type} : Command Token → Type
  | .listObjectsV2 _ _ => Page Token
  -- a response may have no body
  | .getObject _ => Option Body
  | .putObject _ _ => Unit
  | .deleteObject _ => Unit

inductive Failure
  /-- What the SDK throws, with the status of the response, if there was one. -/
  | sdk (status : Option ℕ)
  /-- What `transformToByteArray` throws. -/
  | body
  | transport (retryable : Bool)

variable {Token : Type}

abbrev S3M (Token : Type) (α : Type) := Prog (Command Token) Command.Reply Failure α

/-! ## The adapter -/

def retryable (status : Option ℕ) : Bool :=
  match status with
  | none => true
  | some status => 500 ≤ status || status = 429

/-- `run`. -/
def run {α : Type} (operation : S3M Token α) : S3M Token α :=
  operation.tryCatch (fun
    | .sdk status => .throw (.transport (retryable status))
    | .body => .throw (.transport (retryable none))
    | .transport _ => .throw (.transport (retryable none)))

structure RemoteObject where
  name : JsString
  size : Option ℕ

namespace Target

variable (t : Target)

/-- What is taken of a page. -/
def named (entry : Entry) : Option RemoteObject :=
  match entry.key with
  | none => none
  | some [] => none
  | some key => some ⟨t.unkey key, entry.size⟩

/-- The loop of `list`, for a number of pages. -/
def listPages (pre : JsString) : ℕ → Option Token → List RemoteObject → S3M Token (Option (List RemoteObject))
  | 0, _, _ => pure none
  | n + 1, token, objects => do
    let page ← run (request (Command.listObjectsV2 (t.key pre) token))
    let objects := objects ++ page.contents.filterMap t.named
    match page.nextContinuationToken with
    | none => pure (some objects)
    | some token => listPages pre n (some token) objects

/-- `list`, which goes on for as many pages as there are; `none` if there are more than `pages`. -/
def list (pages : ℕ) (pre : JsString) : S3M Token (Option (List RemoteObject)) := do
  let objects ← t.listPages pre pages none []
  pure (objects.map (fun objects => objects.insertionSort (fun a b => a.name ≤ b.name)))

/-- `get`. -/
def get (name : JsString) : S3M Token (List (Fin 256)) := do
  let body : Option Body ← run (request (Command.getObject (t.key name)))
  match body with
  | none => .throw (.transport true)
  -- the body is read outside `run`
  | some none => .throw .body
  | some (some bytes) => pure bytes

/-- `put`. -/
def put (name : JsString) (bytes : List (Fin 256)) : S3M Token Unit :=
  run (request (Command.putObject (t.key name) bytes))

/-- `remove`. -/
def remove (name : JsString) : S3M Token Unit := run (request (Command.deleteObject (t.key name)))

end Target

/-! ## What is relied on -/

section Service

variable {α : Type} [LinearOrder α] (rank : JsString → α) (mark : Token → JsString)

/-- A key that a page may start with: the token stands for the last key of the page before. -/
def Follows (token : Option Token) (key : JsString) : Prop := ∀ last, token = some last → rank (mark last) < rank key

/-- A page of the keys with a prefix, past a token, as a bucket has them: in their order, with none left out up to the last
one, and with a token if there are more. -/
structure Lists (b : Bucket) (pre : JsString) (token : Option Token) (page : Page Token) : Prop where
  entries : ∀ e ∈ page.contents, ∃ o ∈ b, e = ⟨some o.key, some o.body.length⟩ ∧ pre <+: o.key ∧ Follows rank mark token o.key
  sorted : page.contents.Pairwise (fun e e' => ∀ k k', e.key = some k → e'.key = some k' → rank k < rank k')
  complete : ∀ o ∈ b, pre <+: o.key → Follows rank mark token o.key →
    (∃ e ∈ page.contents, e.key = some o.key) ∨
      page.nextContinuationToken ≠ none ∧ Follows rank mark page.nextContinuationToken o.key
  last : ∀ next, page.nextContinuationToken = some next → Follows rank mark token (mark next) ∧
    ∀ e ∈ page.contents, ∀ k, e.key = some k → rank k ≤ rank (mark next)

/-- How the service answers; a command that fails took effect or did not. -/
inductive Serves : (q : Command Token) → Bucket → Except Failure q.Reply → Bucket → Prop
  | listed (b : Bucket) (pre : JsString) (token : Option Token) (page : Page Token) (h : Lists rank mark b pre token page) :
      Serves (.listObjectsV2 pre token) b (.ok page) b
  | got (b : Bucket) (key : JsString) (o : Stored) (h : b.get? key = some o) :
      Serves (.getObject key) b (.ok (some (some o.body))) b
  | broken (b : Bucket) (key : JsString) : Serves (.getObject key) b (.ok (some none)) b
  | bodiless (b : Bucket) (key : JsString) : Serves (.getObject key) b (.ok none) b
  | put (b : Bucket) (key : JsString) (body : List (Fin 256)) :
      Serves (.putObject key body) b (.ok ()) (b.put ⟨key, body⟩)
  | deleted (b : Bucket) (key : JsString) : Serves (.deleteObject key) b (.ok ()) (b.delete key)
  | failed (q : Command Token) (b : Bucket) (status : Option ℕ) : Serves q b (.error (.sdk status)) b
  | putLost (b : Bucket) (key : JsString) (body : List (Fin 256)) (status : Option ℕ) :
      Serves (.putObject key body) b (.error (.sdk status)) (b.put ⟨key, body⟩)
  | deleteLost (b : Bucket) (key : JsString) (status : Option ℕ) :
      Serves (.deleteObject key) b (.error (.sdk status)) (b.delete key)

end Service

/-! ## A service

Keys in the order of their code units, a token that is the last key of a page, and pages of one size. -/

section Paged

/-- The objects a listing goes on with. -/
def left (b : Bucket) (pre : JsString) (token : Option JsString) : List Stored :=
  b.rows.filter (fun o => pre.isPrefixOf o.key ∧ token.all (· < o.key))

def pageOf (size : ℕ) (b : Bucket) (pre : JsString) (token : Option JsString) : Page JsString :=
  ⟨((left b pre token).take (size + 1)).map (fun o => ⟨some o.key, some o.body.length⟩),
    if (left b pre token).length ≤ size + 1 then none else ((left b pre token)[size]?).map Stored.key⟩

variable {size : ℕ} {b : Bucket} {pre : JsString} {token : Option JsString} {o : Stored}

theorem mem_left : o ∈ left b pre token ↔ o ∈ b ∧ pre <+: o.key ∧ Follows id id token o.key := by
  unfold left Follows
  rw [List.mem_filter, Table.mem_def]
  cases token <;> simp

theorem left_sorted : (left b pre token).Pairwise (fun o o' => o.key < o'.key) := b.sorted.filter _

theorem lists_pageOf : Lists id id b pre token (pageOf size b pre token) := by
  have hsorted : (left b pre token).Pairwise (fun o o' => o.key < o'.key) := left_sorted
  have hnext : ∀ next, (pageOf size b pre token).nextContinuationToken = some next →
      ∃ h : size < (left b pre token).length, next = (left b pre token)[size].key := by
    intro next hnext
    unfold pageOf at hnext
    simp only at hnext
    split_ifs at hnext with hle
    have hlt : size < (left b pre token).length := by omega
    rw [List.getElem?_eq_getElem hlt] at hnext
    cases hnext
    exact ⟨hlt, rfl⟩
  refine ⟨fun e he => ?_, ?_, fun o ho hpre hfollows => ?_, fun next hn => ?_⟩
  · obtain ⟨o, ho, rfl⟩ := List.mem_map.mp he
    obtain ⟨hmem, hrest⟩ := mem_left.mp (List.mem_of_mem_take ho)
    exact ⟨o, hmem, rfl, hrest⟩
  · show (((left b pre token).take (size + 1)).map _).Pairwise _
    rw [List.pairwise_map]
    refine (hsorted.sublist (List.take_sublist _ _)).imp (fun {o o'} hlt k k' hk hk' => ?_)
    cases hk
    cases hk'
    exact hlt
  · obtain ⟨i, hi, hat⟩ := List.mem_iff_getElem.mp (mem_left.mpr ⟨ho, hpre, hfollows⟩)
    by_cases hsize : i < size + 1
    · refine Or.inl ⟨⟨some o.key, some o.body.length⟩, List.mem_map.mpr ⟨o, ?_, rfl⟩, rfl⟩
      exact List.mem_take_iff_getElem.mpr ⟨i, by omega, hat⟩
    · have hlt : size < (left b pre token).length := by omega
      have htoken : (pageOf size b pre token).nextContinuationToken = some (left b pre token)[size].key := by
        unfold pageOf
        rw [if_neg (by omega), List.getElem?_eq_getElem hlt]
        rfl
      refine Or.inr ⟨by rw [htoken]; nofun, ?_⟩
      rintro last hlast
      rw [htoken] at hlast
      cases hlast
      rw [← hat]
      exact List.pairwise_iff_getElem.mp hsorted size i hlt hi (by omega)
  · obtain ⟨hlt, rfl⟩ := hnext next hn
    refine ⟨(mem_left.mp (List.getElem_mem hlt)).2.2, fun e he k hk => ?_⟩
    obtain ⟨o, ho, rfl⟩ := List.mem_map.mp he
    cases hk
    obtain ⟨i, hi, hat⟩ := List.mem_take_iff_getElem.mp ho
    rcases Nat.lt_or_eq_of_le (show i ≤ size by omega) with hi' | rfl
    · rw [← hat]
      exact (List.pairwise_iff_getElem.mp hsorted i size _ hlt hi').le
    · rw [← hat]
      exact le_refl _

end Paged

/-! ## Listing a bucket that others use -/

section Listing

variable {α : Type} [LinearOrder α] (rank : JsString → α) (mark : Token → JsString) (t : Target) (K : Set JsString)
  (P : JsString → ℕ → Prop)

/-- Some names are there, and whatever is there has a property. -/
structure Present (b : Bucket) : Prop where
  there : ∀ n ∈ K, ∃ o ∈ b, o.key = t.key n
  each : ∀ o ∈ b, o.key ≠ [] ∧ P o.key o.body.length

/-- What a listing says if some names were there throughout, and whatever was there at some time had a property. -/
structure Listed (pre : JsString) (objects : List RemoteObject) : Prop where
  sorted : objects.Pairwise (fun a b => a.name < b.name)
  complete : ∀ n ∈ K, pre <+: n → ∃ o ∈ objects, o.name = n
  sound : ∀ o ∈ objects, pre <+: o.name ∧ ∃ size, o.size = some size ∧ P (t.key o.name) size

/-- What has been collected before a page. -/
structure Collected (pre : JsString) (token : Option Token) (objects : List RemoteObject) : Prop where
  sorted : objects.Pairwise (fun a b => rank (t.key a.name) < rank (t.key b.name))
  behind : ∀ o ∈ objects, ∃ last, token = some last ∧ rank (t.key o.name) ≤ rank (mark last)
  complete : ∀ n ∈ K, pre <+: n → (∃ o ∈ objects, o.name = n) ∨ Follows rank mark token (t.key n)
  sound : ∀ o ∈ objects, pre <+: o.name ∧ ∃ size, o.size = some size ∧ P (t.key o.name) size

/-- The adapter among others. -/
def among (env : Bucket → Bucket → Prop) : Protocol (Command Token) Command.Reply Failure Bucket where
  step := Serves rank mark
  rely := Relation.ReflTransGen env
  rely_refl := fun _ => Relation.ReflTransGen.refl
  rely_trans := Relation.ReflTransGen.trans
  pre := fun _ _ => True

variable {rank mark t K P} {b : Bucket} {pre : JsString} {token : Option Token} {page : Page Token}
  {objects : List RemoteObject} {env : Bucket → Bucket → Prop} {I : Bucket → Prop}

theorem Present.put {key : JsString} {body : List (Fin 256)} (h : Present t K P b) (hkey : key ≠ []) (hP : P key body.length) :
    Present t K P (b.put ⟨key, body⟩) := by
  refine ⟨fun n hn => ?_, fun o ho => ?_⟩
  · obtain ⟨o, ho, hon⟩ := h.there n hn
    by_cases hsame : o.key = key
    · exact ⟨_, Table.mem_put_self b _, hsame.symm.trans hon⟩
    · exact ⟨o, Table.mem_put.mpr (Or.inr ⟨ho, hsame⟩), hon⟩
  · rcases Table.mem_put.mp ho with rfl | ⟨ho, -⟩
    · exact ⟨hkey, hP⟩
    · exact h.each o ho

theorem stable_among (hkeeps : ∀ w w', I w → env w w' → I w') : (among rank mark env).Stable I := by
  intro w w' hw h
  induction h with
  | refl => exact hw
  | tail _ h ih => exact hkeeps _ _ ih h

/-- What is taken of an entry of a page. -/
theorem named_entry (hb : Present t K P b) (hpage : Lists rank mark b (t.key pre) token page) {e : Entry}
    (he : e ∈ page.contents) : ∃ x : RemoteObject, t.named e = some x ∧ e.key = some (t.key x.name) ∧ pre <+: x.name ∧
      Follows rank mark token (t.key x.name) ∧ ∃ size, x.size = some size ∧ P (t.key x.name) size := by
  obtain ⟨o, ho, rfl, hpre, hfollows⟩ := hpage.entries e he
  obtain ⟨n, hn, hpn⟩ := t.key_of_prefix hpre
  obtain ⟨hne, hP⟩ := hb.each o ho
  refine ⟨⟨n, some o.body.length⟩, ?_, congrArg some hn, hpn, hn ▸ hfollows, _, rfl, hn ▸ hP⟩
  unfold Target.named
  cases hk : o.key with
  | nil => exact absurd hk hne
  | cons c key =>
    show some (RemoteObject.mk (t.unkey (c :: key)) _) = _
    rw [← hk, hn, t.unkey_key]

theorem mem_named (hb : Present t K P b) (hpage : Lists rank mark b (t.key pre) token page) {x : RemoteObject} :
    x ∈ page.contents.filterMap t.named → (∃ e ∈ page.contents, e.key = some (t.key x.name)) ∧ pre <+: x.name ∧
      Follows rank mark token (t.key x.name) ∧ ∃ size, x.size = some size ∧ P (t.key x.name) size := by
  intro hx
  obtain ⟨e, he, hsome⟩ := List.mem_filterMap.mp hx
  obtain ⟨x', hx', hkey, hrest⟩ := named_entry hb hpage he
  rw [hx'] at hsome
  cases hsome
  exact ⟨⟨e, he, hkey⟩, hrest⟩

theorem exists_named (hb : Present t K P b) (hpage : Lists rank mark b (t.key pre) token page) {n : JsString}
    (h : ∃ e ∈ page.contents, e.key = some (t.key n)) : ∃ x ∈ page.contents.filterMap t.named, x.name = n := by
  obtain ⟨e, he, hkey⟩ := h
  obtain ⟨x, hx, hkey', -⟩ := named_entry hb hpage he
  exact ⟨x, List.mem_filterMap.mpr ⟨e, he, hx⟩, t.key_injective (Option.some.inj (hkey'.symm.trans hkey))⟩

theorem named_sorted (hb : Present t K P b) (hpage : Lists rank mark b (t.key pre) token page) :
    (page.contents.filterMap t.named).Pairwise (fun x y => rank (t.key x.name) < rank (t.key y.name)) := by
  rw [List.pairwise_filterMap]
  refine hpage.sorted.imp_of_mem (fun {e e'} he he' hlt x hx y hy => ?_)
  obtain ⟨x', hx', hkey, -⟩ := named_entry hb hpage he
  obtain ⟨y', hy', hkey', -⟩ := named_entry hb hpage he'
  rw [hx'] at hx
  rw [hy'] at hy
  cases hx
  cases hy
  exact hlt _ _ hkey hkey'

/-- A page more, up to the key that its token stands for. -/
theorem Collected.more (h : Collected rank mark t K P pre token objects) (hb : Present t K P b)
    (hpage : Lists rank mark b (t.key pre) token page) :
    (objects ++ page.contents.filterMap t.named).Pairwise (fun a b => rank (t.key a.name) < rank (t.key b.name)) ∧
      (∀ o ∈ objects ++ page.contents.filterMap t.named, pre <+: o.name ∧ ∃ size, o.size = some size ∧ P (t.key o.name) size) ∧
      ∀ n ∈ K, pre <+: n → (∃ o ∈ objects ++ page.contents.filterMap t.named, o.name = n) ∨
        page.nextContinuationToken ≠ none ∧ Follows rank mark page.nextContinuationToken (t.key n) := by
  refine ⟨List.pairwise_append.mpr ⟨h.sorted, named_sorted hb hpage, fun x hx y hy => ?_⟩, fun o ho => ?_, fun n hn hpre => ?_⟩
  · obtain ⟨last, hlast, hle⟩ := h.behind x hx
    exact lt_of_le_of_lt hle ((mem_named hb hpage hy).2.2.1 last hlast)
  · rcases List.mem_append.mp ho with ho | ho
    · exact h.sound o ho
    · obtain ⟨-, hpre, -, hP⟩ := mem_named hb hpage ho
      exact ⟨hpre, hP⟩
  · rcases h.complete n hn hpre with ⟨o, ho, hname⟩ | hfollows
    · exact Or.inl ⟨o, List.mem_append_left _ ho, hname⟩
    · obtain ⟨o, ho, hkey⟩ := hb.there n hn
      rcases hpage.complete o ho (hkey ▸ t.key_prefix_iff.mpr hpre) (hkey ▸ hfollows) with hmem | hnext
      · obtain ⟨x, hx, hname⟩ := exists_named hb hpage (hkey ▸ hmem)
        exact Or.inl ⟨x, List.mem_append_right _ hx, hname⟩
      · exact Or.inr (hkey ▸ hnext)

theorem Collected.next (h : Collected rank mark t K P pre token objects) (hb : Present t K P b)
    (hpage : Lists rank mark b (t.key pre) token page) {next : Token} (hnext : page.nextContinuationToken = some next) :
    Collected rank mark t K P pre (some next) (objects ++ page.contents.filterMap t.named) := by
  obtain ⟨hsorted, hsound, hcomplete⟩ := h.more hb hpage
  obtain ⟨hafter, hlast⟩ := hpage.last next hnext
  refine ⟨hsorted, fun o ho => ⟨next, rfl, ?_⟩, fun n hn hpre => ?_, hsound⟩
  · rcases List.mem_append.mp ho with ho | ho
    · obtain ⟨last, rfl, hle⟩ := h.behind o ho
      exact hle.trans (hafter last rfl).le
    · obtain ⟨e, he, hkey⟩ := (mem_named hb hpage ho).1
      exact hlast e he _ hkey
  · exact (hcomplete n hn hpre).imp_right (fun hf => hnext ▸ hf.2)

/-- Once there are no more pages the objects are sorted by their names. -/
theorem Collected.listed (h : Collected rank mark t K P pre token objects) (hb : Present t K P b)
    (hpage : Lists rank mark b (t.key pre) token page) (hnext : page.nextContinuationToken = none) :
    Listed t K P pre ((objects ++ page.contents.filterMap t.named).insertionSort (fun a b => a.name ≤ b.name)) := by
  obtain ⟨hsorted, hsound, hcomplete⟩ := h.more hb hpage
  have hperm := List.perm_insertionSort (fun a b : RemoteObject => a.name ≤ b.name)
    (objects ++ page.contents.filterMap t.named)
  have hne : (objects ++ page.contents.filterMap t.named).Pairwise (fun a b => a.name ≠ b.name) :=
    hsorted.imp (fun {a b} hlt heq => absurd (heq ▸ hlt) (lt_irrefl _))
  have hne' := (hperm.pairwise_iff (fun {a b} (hab : a.name ≠ b.name) => hab.symm)).mpr hne
  refine ⟨?_, fun n hn hpre => ?_, fun o ho => hsound o (hperm.mem_iff.mp ho)⟩
  · have hle := List.pairwise_insertionSort (fun a b : RemoteObject => a.name ≤ b.name)
      (objects ++ page.contents.filterMap t.named)
    exact (hle.and hne').imp (fun hboth => lt_of_le_of_ne hboth.1 hboth.2)
  · rcases hcomplete n hn hpre with ⟨o, ho, hname⟩ | ⟨hmore, -⟩
    · exact ⟨o, hperm.mem_iff.mpr ho, hname⟩
    · exact absurd hnext hmore

/-- A page is of the bucket as it was when the service answered. -/
theorem wp_page (hI : (among rank mark env).Stable I) (hb : I b) :
    (among rank mark env).wp (fun page w => I w ∧ ∃ b', I b' ∧ Lists rank mark b' (t.key pre) token page)
      (fun e _ => ∃ r, e = .transport r) (run (request (Command.listObjectsV2 (t.key pre) token))) b := by
  refine Protocol.wp_tryCatch ?_
  intro b' hb'
  have hi' : I b' := hI b b' hb hb'
  refine ⟨trivial, fun r w hstep => ?_⟩
  cases hstep with
  | listed b pre token page hpage => exact fun w' hw' => ⟨hI _ _ hi' hw', _, hi', hpage⟩
  | failed q b status => exact fun w' _ w'' _ => ⟨_, rfl⟩

theorem wp_listPages (hI : (among rank mark env).Stable I) (hpresent : ∀ w, I w → Present t K P w) :
    ∀ (pages : ℕ) (token : Option Token) (objects : List RemoteObject) (b : Bucket), I b →
      Collected rank mark t K P pre token objects →
      (among rank mark env).wp
        (fun found w => I w ∧ ∀ objects, found = some objects →
          Listed t K P pre (objects.insertionSort (fun a b => a.name ≤ b.name)))
        (fun e _ => ∃ r, e = .transport r) (t.listPages pre pages token objects) b := by
  intro pages
  induction pages with
  | zero => exact fun token objects b hb _ w hw => ⟨hI b w hb hw, nofun⟩
  | succ pages ih =>
    intro token objects b hb h
    unfold Target.listPages
    refine Protocol.wp_bind (Protocol.wp_mono (wp_page hI hb) (fun page w hw => ?_) (fun _ _ hx => hx))
    obtain ⟨hw, b', hb', hpage⟩ := hw
    cases hnext : page.nextContinuationToken with
    | none =>
      intro w' hw'
      refine ⟨hI w w' hw hw', fun found hfound => ?_⟩
      cases hfound
      exact h.listed (hpresent b' hb') hpage hnext
    | some next => exact ih (some next) _ w hw (h.next (hpresent b' hb') hpage hnext)

/-- The rule of `list`. -/
theorem wp_list (hI : (among rank mark env).Stable I) (hpresent : ∀ w, I w → Present t K P w) (pages : ℕ) (hb : I b) :
    (among rank mark env).wp (fun found w => I w ∧ ∀ objects, found = some objects → Listed t K P pre objects)
      (fun e _ => ∃ r, e = .transport r) (t.list pages pre) b := by
  have hnone : Collected rank mark t K P pre none [] :=
    ⟨List.Pairwise.nil, nofun, fun n _ _ => Or.inr nofun, nofun⟩
  refine Protocol.wp_bind (Protocol.wp_mono (wp_listPages hI hpresent pages none [] b hb hnone) (fun found w h => ?_)
    (fun _ _ hx => hx))
  intro w' hw'
  refine ⟨hI w w' h.1 hw', fun objects hobjects => ?_⟩
  obtain ⟨found, rfl, rfl⟩ := Option.map_eq_some_iff.mp hobjects
  exact h.2 found rfl

/-- A bucket of two apps. -/
def shared : Bucket := ((Table.empty.put ⟨js "app/a", [1]⟩).put ⟨js "app/c", [3, 3]⟩).put ⟨js "web/a", [9]⟩

end Listing

/-! ## Written and read back -/

section Written

variable {α : Type} [LinearOrder α] {rank : JsString → α} {mark : Token → JsString} {t : Target} {env : Bucket → Bucket → Prop}
  {b : Bucket} {name : JsString} {bytes : List (Fin 256)}

/-- The bucket has `bytes` under a name. -/
structure Holds (t : Target) (name : JsString) (bytes : List (Fin 256)) (b : Bucket) : Prop where
  keys : ∀ o ∈ b, o.key ≠ []
  held : b.get? (t.key name) = some ⟨t.key name, bytes⟩

theorem Holds.present (h : Holds t name bytes b) :
    Present t {name} (fun key size => key = t.key name → size = bytes.length) b := by
  obtain ⟨hmem, -⟩ := Table.get?_eq_some.mp h.held
  refine ⟨fun n hn => ?_, fun o ho => ⟨h.keys o ho, fun hkey => ?_⟩⟩
  · rw [Set.mem_singleton_iff] at hn
    exact ⟨_, hmem, by rw [hn]⟩
  · rw [Table.eq_of_key_eq ho hmem hkey]

theorem holds_put (hb : ∀ o ∈ b, o.key ≠ []) (hkey : t.key name ≠ []) :
    Holds t name bytes (b.put ⟨t.key name, bytes⟩) := by
  refine ⟨fun o ho => ?_, ?_⟩
  · rcases Table.mem_put.mp ho with rfl | ⟨ho, -⟩
    · exact hkey
    · exact hb o ho
  · rw [Table.get?_put, if_pos rfl]

/-- The rule of `put`. -/
theorem wp_put (hkeys : (among rank mark env).Stable (fun w => ∀ o ∈ w, o.key ≠ []))
    (hholds : (among rank mark env).Stable (Holds t name bytes)) (hkey : t.key name ≠ []) (hb : ∀ o ∈ b, o.key ≠ []) :
    (among rank mark env).wp (fun _ w => Holds t name bytes w) (fun e _ => ∃ r, e = .transport r) (t.put name bytes) b := by
  refine Protocol.wp_tryCatch ?_
  intro b' hb'
  have hne : ∀ o ∈ b', o.key ≠ [] := hkeys b b' hb hb'
  refine ⟨trivial, fun r w hstep => ?_⟩
  cases hstep with
  | put b key body => exact fun w' hw' => hholds _ _ (holds_put hne hkey) hw'
  | failed q b status => exact fun w' _ w'' _ => ⟨_, rfl⟩
  | putLost b key body status => exact fun w' _ w'' _ => ⟨_, rfl⟩

/-- The rule of `get`. -/
theorem wp_get (hholds : (among rank mark env).Stable (Holds t name bytes)) (hb : Holds t name bytes b) :
    (among rank mark env).wp (fun back _ => back = bytes) (fun e _ => e = .body ∨ ∃ r, e = .transport r) (t.get name) b := by
  refine Protocol.wp_bind (Protocol.wp_tryCatch ?_)
  intro b' hb'
  have hb' : Holds t name bytes b' := hholds b b' hb hb'
  refine ⟨trivial, fun r w hstep => ?_⟩
  cases hstep with
  | got b key o h =>
    have ho : o = ⟨t.key name, bytes⟩ := Option.some.inj (h.symm.trans hb'.held)
    subst ho
    exact fun w' _ w'' _ => rfl
  | broken b key => exact fun w' _ w'' _ => Or.inl rfl
  | bodiless b key => exact fun w' _ w'' _ => Or.inr ⟨_, rfl⟩
  | failed q b status => exact fun w₁ _ w₂ _ => Or.inr ⟨_, rfl⟩

def found : List RemoteObject := [⟨js "a", some 1⟩, ⟨js "b", some 2⟩, ⟨js "c", some 2⟩]

end Written

end S3

end EasyDocket
