import EasyDocket.Server.Accounts

/-!
# Minting tokens

`docket-sync token` draws a token, prints it, and prints the line that the operator adds to the tokens file.  A server that
loads the file afterwards knows the token, from the header in which the app presents it, and all the others it knew.
-/

namespace EasyDocket

namespace Server

/-! ## Texts -/

def urlDigit (n : ℕ) : GoByte := (go "ABCDEFGHIJKLMNOPQRSTUVWXYZabcdefghijklmnopqrstuvwxyz0123456789-_").getD n 0

/-- `base64.RawURLEncoding.EncodeToString`. -/
def rawURLEncode : GoString → GoString
  | [] => []
  | [a] => [urlDigit (a / 4), urlDigit (a % 4 * 16)]
  | [a, b] => [urlDigit (a / 4), urlDigit (a % 4 * 16 + b / 16), urlDigit (b % 16 * 4)]
  | a :: b :: c :: rest =>
    urlDigit (a / 4) :: urlDigit (a % 4 * 16 + b / 16) :: urlDigit (b % 16 * 4 + c / 64) :: urlDigit (c % 64) ::
      rawURLEncode rest

def newline : GoByte := octet '\n'

/-- One call of `mintToken`: the account it is given, and the bytes it draws. -/
structure Mint where
  account : GoString
  raw : GoString
  drawn : raw.length = 32

/-- The token that is printed. -/
def Mint.token (m : Mint) : GoString := rawURLEncode m.raw

/-- `HashToken`. -/
def hashToken (opts : Options) (token : GoString) : GoString := hexEncode (opts.sha256 token)

/-- The line that is printed. -/
def Mint.line (opts : Options) (m : Mint) : GoString := m.account ++ octet ':' :: hashToken opts m.token

/-- A tokens file with the lines of some mints at its end. -/
def provisioned (opts : Options) (file : GoString) (mints : List Mint) : GoString :=
  file ++ mints.flatMap (fun m => m.line opts ++ [newline])

/-- The header of the app. -/
def bearing (token : GoString) : GoString := go "Bearer " ++ token

/-! ### Hexadecimal digits -/

theorem hexValue_hexDigit {n : ℕ} (h : n < 16) : hexValue (hexDigit n) = some n := by
  have hall : ∀ n : Fin 16, hexValue (hexDigit n) = some n.val := by decide
  exact hall ⟨n, h⟩

theorem isHexDigit_hexDigit {n : ℕ} (h : n < 16) : isHexDigit (hexDigit n) = true := by
  have hall : ∀ n : Fin 16, isHexDigit (hexDigit n) = true := by decide
  exact hall ⟨n, h⟩

theorem hexDecode_hexEncode (data : GoString) : hexDecode (hexEncode data) = some data := by
  induction data with
  | nil => rfl
  | cons c data ih =>
    have hc := c.isLt
    show hexDecode (hexDigit (c.val / 16) :: hexDigit (c.val % 16) :: hexEncode data) = _
    rw [hexDecode, hexValue_hexDigit (by omega), hexValue_hexDigit (by omega), ih]
    show some (Fin.ofNat 256 (16 * (c.val / 16) + c.val % 16) :: data) = _
    rw [Nat.div_add_mod, Fin.ofNat_val_eq_self]

theorem hexEncode_injective {a b : GoString} (h : hexEncode a = hexEncode b) : a = b := by
  have ha := hexDecode_hexEncode a
  rw [h, hexDecode_hexEncode] at ha
  exact (Option.some.inj ha).symm

theorem length_hexEncode (data : GoString) : (hexEncode data).length = 2 * data.length := by
  induction data with
  | nil => rfl
  | cons c data ih =>
    show (hexEncode data).length + 2 = 2 * (data.length + 1)
    omega

theorem isHexDigit_of_mem_hexEncode {data : GoString} {c : GoByte} (h : c ∈ hexEncode data) : isHexDigit c = true := by
  obtain ⟨x, -, hx⟩ := List.mem_flatMap.mp h
  have hlt := x.isLt
  simp only [List.mem_cons, List.not_mem_nil, or_false] at hx
  rcases hx with rfl | rfl
  · exact isHexDigit_hexDigit (by omega)
  · exact isHexDigit_hexDigit (by omega)

/-- Hexadecimal digits are in lower case. -/
theorem toLower_hexEncode (data : GoString) : toLower (hexEncode data) = hexEncode data := by
  have hlower : ∀ c : GoByte, isHexDigit c = true → (if isUpper c then c + 32 else c) = c := by decide +kernel
  exact List.map_congr_left (fun c hc => hlower c (isHexDigit_of_mem_hexEncode hc)) |>.trans (List.map_id _)

/-! ### Spaces -/

/-- No character that is a space begins or ends with a byte. -/
def Inked (c : GoByte) : Prop := ∀ mark ∈ spaces, mark.head? ≠ some c ∧ mark.getLast? ≠ some c

instance (c : GoByte) : Decidable (Inked c) := by unfold Inked; infer_instance

theorem inked_of_isAccountByte {c : GoByte} (h : isAccountByte c = true) : Inked c := by
  have hall : ∀ c : GoByte, isAccountByte c = true → Inked c := by decide +kernel
  exact hall c h

theorem spaces_ne_nil : ∀ mark ∈ spaces, mark ≠ [] := by decide

theorem trimStart_of_head {marks : List GoString} {c : GoByte} {s : GoString}
    (h : ∀ mark ∈ marks, mark ≠ [] ∧ mark.head? ≠ some c) (n : ℕ) : trimStart marks n (c :: s) = c :: s := by
  have hnone : marks.find? (fun mark => mark.isPrefixOf (c :: s)) = none := by
    rw [List.find?_eq_none]
    intro mark hmark hpre
    obtain ⟨hne, hhead⟩ := h mark hmark
    cases mark with
    | nil => exact hne rfl
    | cons x mark =>
      have hx : x = c := (List.cons_prefix_cons.mp (List.isPrefixOf_iff_prefix.mp hpre)).1
      exact hhead (congrArg some hx)
  cases n with
  | zero => rfl
  | succ n =>
    unfold trimStart
    rw [hnone]

/-- What begins and ends with no space is not trimmed. -/
theorem trimSpace_of_inked {s : GoString} (h : ∀ c ∈ s, Inked c) : trimSpace s = s := by
  cases s with
  | nil => rfl
  | cons c s =>
    unfold trimSpace
    dsimp only
    rw [trimStart_of_head (fun mark hmark => ⟨spaces_ne_nil mark hmark, (h c (List.mem_cons_self ..) mark hmark).1⟩)]
    obtain ⟨d, t, ht⟩ := List.exists_cons_of_ne_nil (List.reverse_ne_nil_iff.mpr (List.cons_ne_nil c s))
    have hd : d ∈ c :: s := List.mem_reverse.mp (ht ▸ List.mem_cons_self ..)
    rw [ht, trimStart_of_head, ← ht, List.reverse_reverse]
    intro mark hmark
    obtain ⟨m, hm, rfl⟩ := List.mem_map.mp hmark
    refine ⟨fun hnil => spaces_ne_nil m hm (List.reverse_eq_nil_iff.mp hnil), fun hhead => ?_⟩
    rw [List.head?_reverse] at hhead
    exact (h d hd m hm).2 hhead

/-! ### What is printed -/

theorem isAccountByte_of_isHexDigit {c : GoByte} (h : isHexDigit c = true) : isAccountByte c = true := by
  have hall : ∀ c : GoByte, isHexDigit c = true → isAccountByte c = true := by decide +kernel
  exact hall c h

theorem isAccountByte_urlDigit {n : ℕ} (h : n < 64) : isAccountByte (urlDigit n) = true := by
  have hall : ∀ n : Fin 64, isAccountByte (urlDigit n) = true := by decide +kernel
  exact hall ⟨n, h⟩

theorem isAccountByte_of_mem_rawURLEncode (data : GoString) : ∀ c ∈ rawURLEncode data, isAccountByte c = true := by
  induction data using rawURLEncode.induct with
  | case1 => exact fun c hc => absurd hc List.not_mem_nil
  | case2 a =>
    have ha := a.isLt
    rw [rawURLEncode]
    simp only [List.forall_mem_cons]
    exact ⟨isAccountByte_urlDigit (by omega), isAccountByte_urlDigit (by omega), fun c hc => absurd hc List.not_mem_nil⟩
  | case3 a b =>
    have ha := a.isLt
    have hb := b.isLt
    rw [rawURLEncode]
    simp only [List.forall_mem_cons]
    exact ⟨isAccountByte_urlDigit (by omega), isAccountByte_urlDigit (by omega), isAccountByte_urlDigit (by omega),
      fun c hc => absurd hc List.not_mem_nil⟩
  | case4 a b c rest ih =>
    have ha := a.isLt
    have hb := b.isLt
    have hc := c.isLt
    rw [rawURLEncode]
    simp only [List.forall_mem_cons]
    exact ⟨isAccountByte_urlDigit (by omega), isAccountByte_urlDigit (by omega), isAccountByte_urlDigit (by omega),
      isAccountByte_urlDigit (by omega), ih⟩

section Lines

variable {opts : Options} {m : Mint} {file line : GoString} {registry : Registry}

theorem Mint.token_ne_nil (m : Mint) : m.token ≠ [] := by
  obtain ⟨account, raw, drawn⟩ := m
  show rawURLEncode raw ≠ []
  match raw, drawn with
  | a :: b :: c :: rest, _ =>
    rw [rawURLEncode]
    exact List.cons_ne_nil _ _

theorem inked_token (m : Mint) : ∀ c ∈ m.token, Inked c :=
  fun c hc => inked_of_isAccountByte (isAccountByte_of_mem_rawURLEncode m.raw c hc)

/-- The app presents the token it was given. -/
theorem bearerToken_bearing (m : Mint) : bearerToken (bearing m.token) = m.token := by
  have hlen : (go "Bearer ").length < (bearing m.token).length := by
    have hpos := List.length_pos_iff.mpr m.token_ne_nil
    unfold bearing
    rw [List.length_append]
    omega
  unfold bearerToken
  dsimp only
  have htake : (bearing m.token).take (go "Bearer ").length = go "Bearer " := List.take_left' rfl
  have hdrop : (bearing m.token).drop (go "Bearer ").length = m.token := List.drop_left' rfl
  rw [htake, hdrop, if_neg]
  · exact trimSpace_of_inked (inked_token m)
  · rintro (h | h)
    · omega
    · exact h rfl

theorem isAccountByte_of_mem_hashToken {token : GoString} : ∀ c ∈ hashToken opts token, isAccountByte c = true :=
  fun _ hc => isAccountByte_of_isHexDigit (isHexDigit_of_mem_hexEncode hc)

/-- The bytes of a line that was printed for a valid account. -/
theorem mem_line (h : validAccountID m.account = .ok ()) : ∀ c ∈ m.line opts, isAccountByte c = true ∨ c = octet ':' := by
  intro c hc
  rcases List.mem_append.mp hc with hc | hc
  · exact Or.inl ((validAccountID_ok h).2 c hc)
  · rcases List.mem_cons.mp hc with rfl | hc
    · exact Or.inr rfl
    · exact Or.inl (isAccountByte_of_mem_hashToken c hc)

theorem inked_line (h : validAccountID m.account = .ok ()) : ∀ c ∈ m.line opts, Inked c := by
  intro c hc
  rcases mem_line h c hc with hc | rfl
  · exact inked_of_isAccountByte hc
  · decide +kernel

theorem length_line (hsha : ∀ x, (opts.sha256 x).length = 32) (h : validAccountID m.account = .ok ()) :
    (m.line opts).length < 65536 := by
  have haccount : m.account.length ≤ 64 := by
    unfold validAccountID at h
    split_ifs at h with h1 h2
    omega
  unfold Mint.line hashToken
  rw [List.length_append, List.length_cons, length_hexEncode, hsha]
  omega

/-! ## Loading a file with one more line -/

/-- The lines of a file before they are looked at: a line ends with a newline, and what follows the last one is a line unless
it is empty. -/
def pieces (file : GoString) : List GoString :=
  let parts := file.splitOn newline
  if parts.getLastD [] = [] then parts.dropLast else parts

theorem scanLines_eq (file : GoString) : scanLines file =
    (((pieces file).takeWhile (fun line => decide (line.length < 65536))).map
      (fun line => if line.getLastD 0 = octet '\r' then line.dropLast else line),
      decide (((pieces file).takeWhile (fun line => decide (line.length < 65536))).length < (pieces file).length)) := rfl

/-- Every line of a file ends with a newline. -/
def Terminated (file : GoString) : Prop := file = [] ∨ ∃ body, file = body ++ [newline]

theorem pieces_append (hfile : Terminated file) (hline : newline ∉ line) :
    pieces (file ++ (line ++ [newline])) = pieces file ++ [line] := by
  have hend : ∀ body : GoString, pieces (body ++ [newline]) = body.splitOn newline := by
    intro body
    unfold pieces
    rw [List.splitOn_append_cons_self, show ([] : GoString).splitOn newline = [[]] from rfl]
    dsimp only
    rw [if_pos (List.getLastD_concat ..), List.dropLast_concat]
  rcases hfile with rfl | ⟨body, rfl⟩
  · rw [List.nil_append, hend, List.splitOn_eq_singleton hline]
    rfl
  · rw [← List.append_assoc, hend, hend, List.append_assoc, List.cons_append, List.nil_append,
      List.splitOn_append_cons_self, List.splitOn_eq_singleton hline]

theorem scanLines_append (hfile : Terminated file) (hshort : (scanLines file).2 = false) (hline : newline ∉ line)
    (hlen : line.length < 65536) (hlast : line.getLastD 0 ≠ octet '\r') :
    scanLines (file ++ (line ++ [newline])) = ((scanLines file).1 ++ [line], false) := by
  rw [scanLines_eq] at hshort
  have hall : ∀ p ∈ pieces file, decide (p.length < 65536) = true := by
    have hle := of_decide_eq_false hshort
    have heq := (List.takeWhile_prefix (l := pieces file) (fun line => decide (line.length < 65536))).eq_of_length
      (le_antisymm (List.takeWhile_prefix _).length_le (not_lt.mp hle))
    exact List.takeWhile_eq_self_iff.mp heq
  have hnew : ∀ p ∈ pieces file ++ [line], decide (p.length < 65536) = true := by
    intro p hp
    rcases List.mem_append.mp hp with hp | hp
    · exact hall p hp
    · rw [List.mem_singleton.mp hp]
      exact decide_eq_true hlen
  rw [scanLines_eq, scanLines_eq, pieces_append hfile hline, List.takeWhile_eq_self_iff.mpr hall,
    List.takeWhile_eq_self_iff.mpr hnew, List.map_append]
  refine Prod.ext ?_ (decide_eq_false (lt_irrefl _))
  show _ ++ [if line.getLastD 0 = octet '\r' then line.dropLast else line] = _
  rw [if_neg hlast]

/-- What a file says, and that another line can be added to it. -/
structure Loads (file : GoString) (registry : Registry) : Prop where
  ended : Terminated file
  short : (scanLines file).2 = false
  lines : parseLines 1 (scanLines file).1 ⟨Table.empty⟩ = .ok registry

section Reading

variable {text : GoString} {lines : List GoString} {n : ℕ}

theorem parseLines_skip (h : trimSpace text = [] ∨ (go "#").isPrefixOf (trimSpace text) = true) :
    parseLines n (text :: lines) registry = parseLines (n + 1) lines registry := by
  rw [parseLines]
  exact if_pos h

theorem parseLines_entry (h : ¬ (trimSpace text = [] ∨ (go "#").isPrefixOf (trimSpace text) = true)) {next : Registry}
    (hentry : parseEntry n (trimSpace text) registry = .ok next) :
    parseLines n (text :: lines) registry = parseLines (n + 1) lines next := by
  rw [parseLines]
  refine (if_neg h).trans ?_
  rw [hentry]

theorem parseLines_fault (h : ¬ (trimSpace text = [] ∨ (go "#").isPrefixOf (trimSpace text) = true)) {e : TokensError}
    (hentry : parseEntry n (trimSpace text) registry = .error e) : parseLines n (text :: lines) registry = .error e := by
  rw [parseLines]
  refine (if_neg h).trans ?_
  rw [hentry]

end Reading

/-- Lines are read one after the other. -/
theorem parseLines_append (more : List GoString) : ∀ (lines : List GoString) (n : ℕ) (registry registry' : Registry),
    parseLines n lines registry = .ok registry' →
    parseLines n (lines ++ more) registry = parseLines (n + lines.length) more registry'
  | [], n, registry, registry', h => by
    cases h
    rfl
  | text :: lines, n, registry, registry', h => by
    have hcount : n + (text :: lines).length = n + 1 + lines.length := by
      rw [List.length_cons]
      omega
    rw [hcount, List.cons_append]
    by_cases hskip : trimSpace text = [] ∨ (go "#").isPrefixOf (trimSpace text) = true
    · rw [parseLines_skip hskip] at h ⊢
      exact parseLines_append more lines (n + 1) registry registry' h
    · cases hentry : parseEntry n (trimSpace text) registry with
      | error e => exact absurd ((parseLines_fault hskip hentry).symm.trans h) nofun
      | ok next =>
        rw [parseLines_entry hskip hentry] at h ⊢
        exact parseLines_append more lines (n + 1) next registry' h

/-- A line that was printed is read as the account and the hash it was made of. -/
theorem parseEntry_line (hsha : ∀ x, (opts.sha256 x).length = 32) (h : validAccountID m.account = .ok ()) (n : ℕ)
    (hfresh : registry.byHash.get? (hashToken opts m.token) = none) :
    parseEntry n (m.line opts) registry = .ok ⟨registry.byHash.put ⟨hashToken opts m.token, m.account⟩⟩ := by
  have hcolon : ∀ c ∈ m.account, decide (c ≠ octet ':') = true := by
    intro c hc
    refine decide_eq_true ?_
    rintro rfl
    exact absurd ((validAccountID_ok h).2 _ hc) (by decide)
  have hcut : cut (m.line opts) (octet ':') = some (m.account, hashToken opts m.token) := by
    unfold cut Mint.line
    rw [List.dropWhile_append_of_pos hcolon, List.takeWhile_append_of_pos hcolon]
    rw [List.dropWhile_cons_of_neg (by simp), List.takeWhile_cons_of_neg (by simp), List.append_nil]
  have haccount : trimSpace m.account = m.account :=
    trimSpace_of_inked (fun c hc => inked_of_isAccountByte ((validAccountID_ok h).2 c hc))
  have hhash : toLower (trimSpace (hashToken opts m.token)) = hashToken opts m.token := by
    rw [trimSpace_of_inked (fun c hc => inked_of_isAccountByte (isAccountByte_of_mem_hashToken c hc))]
    exact toLower_hexEncode _
  unfold parseEntry
  simp only [hcut, haccount, hhash, h]
  have hdecode : hexDecode (hashToken opts m.token) = some (opts.sha256 m.token) := hexDecode_hexEncode _
  simp only [hdecode, hsha, hfresh]
  rfl

theorem parseLines_line (hsha : ∀ x, (opts.sha256 x).length = 32) (h : validAccountID m.account = .ok ()) (n : ℕ)
    (hfresh : registry.byHash.get? (hashToken opts m.token) = none) :
    parseLines n [m.line opts] registry = .ok ⟨registry.byHash.put ⟨hashToken opts m.token, m.account⟩⟩ := by
  have hskip : ¬ (m.line opts = [] ∨ (go "#").isPrefixOf (m.line opts) = true) := by
    obtain ⟨hne, hbytes⟩ := validAccountID_ok h
    obtain ⟨c, rest, hc⟩ := List.exists_cons_of_ne_nil hne
    have hcb := hbytes c (hc ▸ List.mem_cons_self ..)
    unfold Mint.line
    rw [hc, List.cons_append]
    rintro (hnil | hpre)
    · cases hnil
    · have heq : octet '#' = c := (List.cons_prefix_cons.mp (List.isPrefixOf_iff_prefix.mp hpre)).1
      rw [← heq] at hcb
      exact absurd hcb (by decide)
  have htrim : trimSpace (m.line opts) = m.line opts := trimSpace_of_inked (inked_line h)
  exact parseLines_entry (by rw [htrim]; exact hskip) (by rw [htrim]; exact parseEntry_line hsha h n hfresh)

theorem newline_not_mem_line (h : validAccountID m.account = .ok ()) : newline ∉ m.line opts := by
  intro hmem
  rcases mem_line h _ hmem with hc | hc
  · exact absurd hc (by decide)
  · exact absurd hc (by decide)

theorem getLastD_line (h : validAccountID m.account = .ok ()) : (m.line opts).getLastD 0 ≠ octet '\r' := by
  have hne : m.line opts ≠ [] := by
    unfold Mint.line
    exact List.append_ne_nil_of_right_ne_nil _ (List.cons_ne_nil _ _)
  rw [List.getLastD_eq_getLast?, List.getLast?_eq_some_getLast hne, Option.getD_some]
  intro heq
  rcases mem_line h _ (List.getLast_mem hne) with hc | hc
  · rw [heq] at hc
    exact absurd hc (by decide)
  · rw [heq] at hc
    exact absurd hc (by decide)

/-- A file with the line of a mint added. -/
theorem Loads.mint (hload : Loads file registry) (hsha : ∀ x, (opts.sha256 x).length = 32)
    (h : validAccountID m.account = .ok ()) (hfresh : registry.byHash.get? (hashToken opts m.token) = none) :
    Loads (file ++ (m.line opts ++ [newline])) ⟨registry.byHash.put ⟨hashToken opts m.token, m.account⟩⟩ := by
  have hnewline : newline ∉ m.line opts := newline_not_mem_line h
  have hscan := scanLines_append hload.ended hload.short hnewline (length_line hsha h) (getLastD_line h)
  refine ⟨Or.inr ⟨file ++ m.line opts, (List.append_assoc ..).symm⟩, by rw [hscan], ?_⟩
  rw [hscan]
  show parseLines 1 ((scanLines file).1 ++ [m.line opts]) _ = _
  rw [parseLines_append _ _ _ _ _ hload.lines, parseLines_line hsha h _ hfresh]

/-! ## Provisioning -/

/-- Accounts are given tokens one after the other. -/
theorem Loads.provisioned (hsha : ∀ x, (opts.sha256 x).length = 32) : ∀ (mints : List Mint) (file : GoString)
    (registry : Registry), Loads file registry → (∀ m ∈ mints, validAccountID m.account = .ok ()) →
    (mints.map (fun m => hashToken opts m.token)).Nodup →
    (∀ m ∈ mints, registry.byHash.get? (hashToken opts m.token) = none) →
    ∃ registry', Loads (provisioned opts file mints) registry' ∧
      (∀ m ∈ mints, registry'.byHash.get? (hashToken opts m.token) = some ⟨hashToken opts m.token, m.account⟩) ∧
      ∀ x, (∀ m ∈ mints, hashToken opts m.token ≠ x) → registry'.byHash.get? x = registry.byHash.get? x
  | [], file, registry, hload, _, _, _ => by
    refine ⟨registry, ?_, fun m hm => absurd hm List.not_mem_nil, fun x _ => rfl⟩
    unfold Server.provisioned
    rw [List.flatMap_nil, List.append_nil]
    exact hload
  | m :: mints, file, registry, hload, hvalid, hnodup, hfresh => by
    obtain ⟨hm, hvalid⟩ := List.forall_mem_cons.mp hvalid
    obtain ⟨hmfresh, hfresh⟩ := List.forall_mem_cons.mp hfresh
    rw [List.map_cons, List.nodup_cons] at hnodup
    obtain ⟨hnew, hnodup⟩ := hnodup
    have hne : ∀ m' ∈ mints, hashToken opts m.token ≠ hashToken opts m'.token := fun m' hm' heq =>
      hnew (heq ▸ List.mem_map_of_mem (f := fun m => hashToken opts m.token) hm')
    obtain ⟨registry', hload', hgets, hrest⟩ := Loads.provisioned hsha mints _ _ (hload.mint hsha hm hmfresh) hvalid hnodup
      (fun m' hm' => by
        rw [Table.get?_put, if_neg (fun heq => hne m' hm' heq.symm)]
        exact hfresh m' hm')
    refine ⟨registry', ?_, ?_, fun x hx => ?_⟩
    · unfold Server.provisioned at hload' ⊢
      rwa [List.flatMap_cons, ← List.append_assoc]
    · refine List.forall_mem_cons.mpr ⟨?_, hgets⟩
      rw [hrest _ (fun m' hm' heq => hne m' hm' heq.symm), Table.get?_put, if_pos rfl]
    · obtain ⟨hmx, hx⟩ := List.forall_mem_cons.mp hx
      rw [hrest x hx, Table.get?_put, if_neg (fun heq => hmx heq.symm)]

/-- What a registry knows of a request by the hash of the token it bears. -/
theorem accountOf_eq {r : Request} (h : bearerToken r.authorization ≠ []) : accountOf opts registry r =
    (registry.byHash.get? (hashToken opts (bearerToken r.authorization))).map TokenEntry.account := if_neg h

/-- After any number of calls of `docket-sync token`, whose lines are added to a tokens file, the server loads the file, and
knows every new token, as the app presents it, as its account's; what it makes of any other header is as before. -/
theorem mints_authorised (hsha : ∀ x, (opts.sha256 x).length = 32) {mints : List Mint} (hload : Loads file registry)
    (hvalid : ∀ m ∈ mints, validAccountID m.account = .ok ()) (hsome : mints ≠ [])
    (hnew : (mints.map (fun m => opts.sha256 m.token)).Nodup) (hfresh : ∀ m ∈ mints, registry.lookup opts m.token = none) :
    ∃ registry', parseTokens (provisioned opts file mints) = .ok registry' ∧ Loads (provisioned opts file mints) registry' ∧
      (∀ m ∈ mints, ∀ r : Request, r.authorization = bearing m.token → accountOf opts registry' r = some m.account) ∧
      ∀ r : Request, (∀ m ∈ mints, opts.sha256 (bearerToken r.authorization) ≠ opts.sha256 m.token) →
        accountOf opts registry' r = accountOf opts registry r := by
  have hnodup : (mints.map (fun m => hashToken opts m.token)).Nodup := by
    have hmap : mints.map (fun m => hashToken opts m.token) = (mints.map (fun m => opts.sha256 m.token)).map hexEncode := by
      rw [List.map_map]
      rfl
    rw [hmap]
    exact hnew.map (fun _ _ h => hexEncode_injective h)
  have hget : ∀ m ∈ mints, registry.byHash.get? (hashToken opts m.token) = none := by
    intro m hm
    have hlookup := hfresh m hm
    unfold Registry.lookup at hlookup
    rw [if_neg m.token_ne_nil] at hlookup
    exact Option.map_eq_none_iff.mp hlookup
  obtain ⟨registry', hload', hgets, hrest⟩ := Loads.provisioned hsha mints file registry hload hvalid hnodup hget
  refine ⟨registry', ?_, hload', fun m hm r hr => ?_, fun r hr => ?_⟩
  · unfold parseTokens
    rw [hload'.lines, hload'.short]
    dsimp only
    rw [if_neg Bool.false_ne_true, if_neg]
    intro hnil
    obtain ⟨m, hm⟩ := List.exists_mem_of_ne_nil mints hsome
    have hentry := (Table.get?_eq_some.mp (hgets m hm)).1
    rw [Table.mem_def, hnil] at hentry
    exact List.not_mem_nil hentry
  · have hbearer : bearerToken r.authorization = m.token := by rw [hr, bearerToken_bearing]
    rw [accountOf_eq (by rw [hbearer]; exact m.token_ne_nil), hbearer, hgets m hm]
    rfl
  · by_cases hnil : bearerToken r.authorization = []
    · unfold accountOf Registry.lookup
      rw [if_pos hnil, if_pos hnil]
    · rw [accountOf_eq hnil, accountOf_eq hnil,
        hrest (hashToken opts (bearerToken r.authorization)) (fun m hm heq => hr m hm (hexEncode_injective heq.symm))]

end Lines

/-! ### Two accounts -/

def mintFor (account : GoString) (n : GoByte) : Mint := ⟨account, List.replicate 32 n, List.length_replicate⟩

/-- The hashes of two tokens. -/
def mintOptions : Options where
  maxObjectSize := 0
  sha256 token :=
    if token = go "AQEBAQEBAQEBAQEBAQEBAQEBAQEBAQEBAQEBAQEBAQE" then
      (hexDecode (go "56d5fa7333f6d747db42c239407e5da4c32f4c79f35d092b134fd35a402d9c5c")).getD []
    else if token = go "AgICAgICAgICAgICAgICAgICAgICAgICAgICAgICAgI" then
      (hexDecode (go "6c1d63bbdab437c54368cbbd8886a886a79ad977297e265eebf1f5f5f01533b9")).getD []
    else List.replicate 32 0
  quoteRune := id

theorem mints_authorised_twice : ∃ registry',
    parseTokens (provisioned mintOptions (go "# tokens\n\n") [mintFor (go "alice") 1, mintFor (go "bob") 2]) = .ok registry' ∧
    (∀ r : Request, r.authorization = bearing (mintFor (go "bob") 2).token →
      accountOf mintOptions registry' r = some (go "bob")) := by
  have hload : Loads (go "# tokens\n\n") ⟨Table.empty⟩ := ⟨Or.inr ⟨go "# tokens\n", by decide⟩, by decide +kernel, rfl⟩
  have hsha : ∀ x, (mintOptions.sha256 x).length = 32 := by
    intro x
    unfold mintOptions
    dsimp only
    split_ifs
    · decide +kernel
    · decide +kernel
    · exact List.length_replicate
  have hvalid : ∀ m ∈ [mintFor (go "alice") 1, mintFor (go "bob") 2], validAccountID m.account = .ok () := by decide
  obtain ⟨registry', hparse, -, hnew, -⟩ := mints_authorised hsha hload hvalid (List.cons_ne_nil _ _) (by decide +kernel)
    (by decide +kernel)
  refine ⟨registry', hparse, fun r hr => hnew _ (List.mem_cons_of_mem _ (List.mem_cons_self ..)) r hr⟩

end Server

end EasyDocket
