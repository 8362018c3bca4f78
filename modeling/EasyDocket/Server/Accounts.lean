import EasyDocket.Server.Calls

/-!
# Tokens and accounts

The tokens file, the account a token belongs to, and the requests of the server with the account found first.
-/

namespace EasyDocket

namespace Server

/-! ## Text -/

/-- `unicode.IsSpace`, by the bytes of the characters. -/
def spaces : List GoString :=
  [[9], [10], [11], [12], [13], [32], [194, 133], [194, 160], [225, 154, 128], [226, 128, 168], [226, 128, 169],
    [226, 128, 175], [226, 129, 159], [227, 128, 128]] ++ (List.range 11).map (fun n => [226, 128, Fin.ofNat 256 (128 + n)])

/-- Leave out spaces at the start, for as many as there may be. -/
def trimStart (marks : List GoString) : ℕ → GoString → GoString
  | 0, s => s
  | n + 1, s =>
    match marks.find? (fun mark => mark.isPrefixOf s) with
    | some mark => trimStart marks n (s.drop mark.length)
    | none => s

/-- `strings.TrimSpace`. -/
def trimSpace (s : GoString) : GoString :=
  let s := trimStart spaces s.length s
  (trimStart (spaces.map List.reverse) s.length s.reverse).reverse

/-- `strings.Cut`. -/
def cut (s : GoString) (sep : GoByte) : Option (GoString × GoString) :=
  match s.dropWhile (· ≠ sep) with
  | _ :: rest => some (s.takeWhile (· ≠ sep), rest)
  | [] => none

/-- `strings.ToLower`, as far as hexadecimal digits go: no other character becomes one. -/
def toLower (s : GoString) : GoString := s.map (fun c => if isUpper c then c + 32 else c)

def hexValue (c : GoByte) : Option ℕ :=
  if isDigit c then some (c.val - (octet '0').val)
  else if between 'a' 'f' c then some (c.val - (octet 'a').val + 10)
  else none

/-- `hex.DecodeString` of lower case. -/
def hexDecode : GoString → Option GoString
  | [] => some []
  | [_] => none
  | a :: b :: rest =>
    match hexValue a, hexValue b, hexDecode rest with
    | some x, some y, some raw => some (Fin.ofNat 256 (16 * x + y) :: raw)
    | _, _, _ => none

/-- The lines of a `bufio.Scanner`, and whether it stopped at one that was too long. -/
def scanLines (file : GoString) : List GoString × Bool :=
  let parts := file.splitOn (octet '\n')
  let parts := if parts.getLastD [] = [] then parts.dropLast else parts
  let lines := parts.takeWhile (fun line => decide (line.length < 65536))
  (lines.map (fun line => if line.getLastD 0 = octet '\r' then line.dropLast else line), decide (lines.length < parts.length))

/-! ## The tokens file -/

structure TokenEntry where
  hash : GoString
  /-- The id of an account. -/
  account : GoString

/-- Tokens to accounts, by the hash of the token. -/
structure Registry where
  byHash : Table TokenEntry.hash

inductive TokensError
  | noSeparator (line : ℕ)
  | account (line : ℕ) (fault : AccountFault)
  | hash (line : ℕ)
  | duplicate (line : ℕ)
  | lineTooLong
  | noTokens

def parseEntry (line : ℕ) (text : GoString) (registry : Registry) : Except TokensError Registry :=
  match cut text (octet ':') with
  | none => .error (.noSeparator line)
  | some (id, hash) =>
    let id := trimSpace id
    let hash := toLower (trimSpace hash)
    match validAccountID id with
    | .error fault => .error (.account line fault)
    | .ok () =>
      match hexDecode hash with
      | none => .error (.hash line)
      | some raw =>
        if raw.length ≠ 32 then .error (.hash line)
        else if (registry.byHash.get? hash).isSome then .error (.duplicate line)
        else .ok ⟨registry.byHash.put ⟨hash, id⟩⟩

/-- The loop of `ParseTokens`, from a line on. -/
def parseLines : ℕ → List GoString → Registry → Except TokensError Registry
  | _, [], registry => .ok registry
  | line, text :: lines, registry =>
    let text := trimSpace text
    if text = [] ∨ (go "#").isPrefixOf text then parseLines (line + 1) lines registry
    else
      match parseEntry line text registry with
      | .error e => .error e
      | .ok registry => parseLines (line + 1) lines registry

/-- `ParseTokens`. -/
def parseTokens (file : GoString) : Except TokensError Registry :=
  match parseLines 1 (scanLines file).1 ⟨Table.empty⟩ with
  | .error e => .error e
  | .ok registry =>
    if (scanLines file).2 then .error .lineTooLong
    else if registry.byHash.rows = [] then .error .noTokens
    else .ok registry

/-! ### What is loaded -/

/-- Every account of a registry has a valid id. -/
def Registry.Valid (registry : Registry) : Prop := ∀ e ∈ registry.byHash, validAccountID e.account = .ok ()

theorem valid_parseEntry {line : ℕ} {text : GoString} {registry registry' : Registry} (h : registry.Valid)
    (hparse : parseEntry line text registry = .ok registry') : registry'.Valid := by
  unfold parseEntry at hparse
  split at hparse
  · cases hparse
  · dsimp only at hparse
    split at hparse
    · cases hparse
    · rename_i hid
      split at hparse
      · cases hparse
      · split_ifs at hparse
        cases hparse
        intro e he
        rcases Table.mem_put.mp he with rfl | ⟨he, -⟩
        · exact hid
        · exact h e he

theorem valid_parseLines (lines : List GoString) : ∀ (line : ℕ) (registry registry' : Registry), registry.Valid →
    parseLines line lines registry = .ok registry' → registry'.Valid := by
  induction lines with
  | nil =>
    intro line registry registry' h hparse
    cases hparse
    exact h
  | cons text lines ih =>
    intro line registry registry' h hparse
    unfold parseLines at hparse
    dsimp only at hparse
    split_ifs at hparse
    · exact ih _ _ _ h hparse
    · split at hparse
      · cases hparse
      · rename_i next hentry
        exact ih _ _ _ (valid_parseEntry h hentry) hparse

/-- Every account that `ParseTokens` loads has a valid id. -/
theorem valid_parseTokens {file : GoString} {registry : Registry} (h : parseTokens file = .ok registry) : registry.Valid := by
  unfold parseTokens at h
  split at h
  · cases h
  · rename_i loaded hlines
    split_ifs at h
    cases h
    exact valid_parseLines _ _ _ _ (fun e he => absurd he List.not_mem_nil) hlines

/-! ## Requests -/

variable (opts : Options)

/-- `Lookup`. -/
def Registry.lookup (registry : Registry) (token : GoString) : Option GoString :=
  if token = [] then none
  else (registry.byHash.get? (hexEncode (opts.sha256 token))).map TokenEntry.account

/-- `BearerToken`. -/
def bearerToken (header : GoString) : GoString :=
  let bearer := go "Bearer "
  if header.length ≤ bearer.length ∨ toLower (header.take bearer.length) ≠ toLower bearer then []
  else trimSpace (header.drop bearer.length)

/-- The account of a request, if it is authorised. -/
def accountOf (registry : Registry) (r : Request) : Option GoString := registry.lookup opts (bearerToken r.authorization)

/-- `authenticated`. -/
def authenticated (s : FSStore) (registry : Registry) (r : Request) : Fs Sent :=
  match accountOf opts registry r with
  | none => pure (writeJSON 401 [(go "WWW-Authenticate", go "Bearer realm=\"easy-docket\"")]
      (.error (go "invalid or missing bearer token")))
  | some account => handle s opts account r

end Server

end EasyDocket
