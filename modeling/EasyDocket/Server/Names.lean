import EasyDocket.Lib.Pattern

/-!
# Names and paths of the server

A Go string is a sequence of bytes.  Object names, listing prefixes and account ids are checked before a path is made
from them; paths are put together as `path/filepath` does it on Unix.
-/

namespace EasyDocket

namespace Server

abbrev GoByte := Fin 256

/-- A Go string, or a slice of bytes. -/
abbrev GoString := List GoByte

def octet (c : Char) : GoByte := Fin.ofNat 256 c.toNat

/-- The Go string of an ASCII literal. -/
def go (s : String) : GoString := s.toList.map octet

/-- The separator of path segments. -/
def slash : GoByte := octet '/'

/-! ## Names -/

/-- What is wrong with a name. -/
inductive NameFault
  | tooLong
  | traversal
  | shape
  | prefixTooLong
  /-- The prefix from its first invalid character on. -/
  | character (rest : GoString)
  | account
  | escapes
  deriving DecidableEq

def between (a z : Char) (c : GoByte) : Bool := octet a ≤ c && c ≤ octet z

def isLower (c : GoByte) : Bool := between 'a' 'z' c
def isUpper (c : GoByte) : Bool := between 'A' 'Z' c
def isDigit (c : GoByte) : Bool := between '0' '9' c
def isAlphaNum (c : GoByte) : Bool := isUpper c || isLower c || isDigit c
def isHexDigit (c : GoByte) : Bool := isDigit c || between 'a' 'f' c
def isIdByte (c : GoByte) : Bool := isAlphaNum c || c = octet '-'

/-- `[0-9]{19}-[0-9a-f]{4}-[A-Za-z0-9]{1,32}\.edk`. -/
def fileNamePattern : Pattern GoByte :=
  [⟨isDigit, 19, 19⟩] ++ Pattern.literal (go "-") ++ [⟨isHexDigit, 4, 4⟩] ++ Pattern.literal (go "-") ++
    [⟨isAlphaNum, 1, 32⟩] ++ Pattern.literal (go ".edk")

/-- `^vaults/[A-Za-z0-9-]{1,64}/ops/[0-9]{19}-[0-9a-f]{4}-[A-Za-z0-9]{1,32}\.edk$`. -/
def objectNamePattern : Pattern GoByte :=
  Pattern.literal (go "vaults/") ++ [⟨isIdByte, 1, 64⟩] ++ Pattern.literal (go "/ops/") ++ fileNamePattern

/-- `ValidateName`. -/
def validateName (name : GoString) : Except NameFault Unit :=
  if name.length > 256 then .error .tooLong
  else if go ".." <:+: name ∨ go "/" <+: name then .error .traversal
  else if objectNamePattern.isMatch name = false then .error .shape
  else .ok ()

/-- The characters a prefix may have. -/
def isPrefixByte (c : GoByte) : Bool := isAlphaNum c || c = octet '-' || c = octet '_' || c = slash || c = octet '.'

/-- `ValidatePrefix`. -/
def validatePrefix (pre : GoString) : Except NameFault Unit :=
  if pre.length > 256 then .error .prefixTooLong
  else if go ".." <:+: pre ∨ go "/" <+: pre then .error .traversal
  else match pre.dropWhile isPrefixByte with
    | [] => .ok ()
    | rest => .error (.character rest)

inductive AccountFault
  | empty
  | tooLong
  /-- The id from its first invalid character on. -/
  | character (rest : GoString)
  deriving DecidableEq

def isAccountByte (c : GoByte) : Bool := isAlphaNum c || c = octet '-' || c = octet '_'

/-- `validAccountID`. -/
def validAccountID (id : GoString) : Except AccountFault Unit :=
  if id = [] then .error .empty
  else if id.length > 64 then .error .tooLong
  else match id.dropWhile isAccountByte with
    | [] => .ok ()
    | rest => .error (.character rest)

/-! ## Paths -/

/-- The segments of a path. -/
def splitSlash (p : GoString) : List GoString := p.splitOn slash

/-- Segments with slashes between them. -/
def joinSlash (segments : List GoString) : GoString := [slash].intercalate segments

/-- One segment of `Clean`; the segments so far are given last first. -/
def cleanSegment (rooted : Bool) (acc : List GoString) (s : GoString) : List GoString :=
  if s = [] ∨ s = go "." then acc
  else if s = go ".." then
    match acc with
    | [] => if rooted then [] else [s]
    | top :: rest => if top = go ".." then s :: acc else rest
  else s :: acc

/-- `filepath.Clean`. -/
def clean (p : GoString) : GoString :=
  match p with
  | [] => go "."
  | c :: rest =>
    if c = slash then slash :: joinSlash ((splitSlash rest).foldl (cleanSegment true) []).reverse
    else
      match ((splitSlash p).foldl (cleanSegment false) []).reverse with
      | [] => go "."
      | segments => joinSlash segments

/-- `filepath.Join` of two elements. -/
def join (a b : GoString) : GoString :=
  if a ≠ [] then clean (a ++ slash :: b)
  else if b ≠ [] then clean b
  else []

/-- `path`: the file of an object, or the directory of an account for an empty name. -/
def path (root account name : GoString) : Except NameFault GoString :=
  if account = [] ∨ account.any (fun c => c = slash || c = octet '\\' || c = octet '.') then .error .account
  else
    let accountRoot := join root account
    let full := join accountRoot name
    if full ≠ accountRoot ∧ ¬ accountRoot ++ [slash] <+: full then .error .escapes
    else .ok full

/-! ## What is accepted -/

/-- A segment that stands for an entry of its directory. -/
structure Normal (s : GoString) : Prop where
  ne_nil : s ≠ []
  ne_dot : s ≠ go "."
  ne_dots : s ≠ go ".."
  no_slash : slash ∉ s

theorem dropWhile_eq_nil {p : GoByte → Bool} {s : GoString} (h : s.dropWhile p = []) : ∀ c ∈ s, p c = true :=
  List.dropWhile_eq_nil_iff.mp h

theorem slash_not_account : isAccountByte slash = false := by decide

theorem dot_not_account : isAccountByte (octet '.') = false := by decide

theorem isIdByte_of_isAlphaNum {c : GoByte} (h : isAlphaNum c = true) : isIdByte c = true := by
  unfold isIdByte
  rw [h]
  rfl

theorem isIdByte_of_isDigit {c : GoByte} (h : isDigit c = true) : isIdByte c = true := by
  refine isIdByte_of_isAlphaNum ?_
  unfold isAlphaNum
  rw [h]
  exact Bool.or_true _

theorem isIdByte_of_isHexDigit {c : GoByte} (h : isHexDigit c = true) : isIdByte c = true := by
  rcases (Bool.or_eq_true _ _).mp h with h | h
  · exact isIdByte_of_isDigit h
  · obtain ⟨ha, hf⟩ := (Bool.and_eq_true _ _).mp h
    have hz : octet 'f' ≤ octet 'z' := by decide
    have hlower : isLower c = true :=
      (Bool.and_eq_true _ _).mpr ⟨ha, decide_eq_true (le_trans (of_decide_eq_true hf) hz)⟩
    refine isIdByte_of_isAlphaNum ?_
    unfold isAlphaNum
    rw [hlower, Bool.or_true, Bool.true_or]

theorem isIdByte_dash : ∀ c ∈ go "-", isIdByte c = true := List.all_eq_true.mp (by decide)

theorem isPrefixByte_of_isIdByte {c : GoByte} (h : isIdByte c = true) : isPrefixByte c = true := by
  have hpre : isPrefixByte c = (isIdByte c || c = octet '_' || c = slash || c = octet '.') := rfl
  rw [hpre, h]
  rfl

theorem validAccountID_ok {id : GoString} (h : validAccountID id = .ok ()) :
    id ≠ [] ∧ ∀ c ∈ id, isAccountByte c = true := by
  unfold validAccountID at h
  split_ifs at h with h1 h2
  refine ⟨h1, ?_⟩
  cases hd : id.dropWhile isAccountByte with
  | nil => exact dropWhile_eq_nil hd
  | cons c rest => rw [hd] at h; cases h

/-- A string without dots or slashes is a segment. -/
theorem normal_of_forall {p : GoByte → Bool} (hdot : p (octet '.') = false) (hslash : p slash = false) {s : GoString}
    (hne : s ≠ []) (h : ∀ c ∈ s, p c = true) : Normal s := by
  have no : ∀ c, p c = false → c ∉ s := by
    intro c hc hm
    rw [h c hm] at hc
    cases hc
  refine ⟨hne, ?_, ?_, no slash hslash⟩
  · rintro rfl
    exact no (octet '.') hdot (by decide)
  · rintro rfl
    exact no (octet '.') hdot (by decide)

theorem normal_account {id : GoString} (h : validAccountID id = .ok ()) : Normal id :=
  normal_of_forall dot_not_account slash_not_account (validAccountID_ok h).1 (validAccountID_ok h).2

/-- What a valid name is made of. -/
structure NameParts (name vault file : GoString) : Prop where
  eq : name = go "vaults/" ++ vault ++ go "/ops/" ++ file
  vault_ne : vault ≠ []
  vault_bytes : ∀ c ∈ vault, isIdByte c = true
  file_match : fileNamePattern.isMatch file = true

theorem validateName_ok {name : GoString} (h : validateName name = .ok ()) : ∃ vault file, NameParts name vault file := by
  unfold validateName at h
  split_ifs at h with h1 h2 h3
  have hm : objectNamePattern.isMatch name = true := (Bool.not_eq_false _).mp h3
  obtain ⟨a, file, rfl, ha, hfile⟩ := Pattern.isMatch_append.mp hm
  obtain ⟨b, c, rfl, hb, hc⟩ := Pattern.isMatch_append.mp ha
  obtain ⟨d, vault, rfl, hd, hvault⟩ := Pattern.isMatch_append.mp hb
  obtain ⟨hlen, -, hbytes⟩ := Pattern.isMatch_singleton.mp hvault
  rw [Pattern.isMatch_literal.mp hd, Pattern.isMatch_literal.mp hc]
  refine ⟨vault, file, rfl, fun hnil => ?_, hbytes, hfile⟩
  rw [hnil] at hlen
  exact absurd hlen (by decide)

/-- A file name ends in `.edk`, and what comes before has neither dots nor slashes. -/
theorem file_parts {file : GoString} (h : fileNamePattern.isMatch file = true) :
    ∃ stem, file = stem ++ go ".edk" ∧ stem ≠ [] ∧ ∀ c ∈ stem, isIdByte c = true := by
  obtain ⟨stem, ext, rfl, hstem, hext⟩ := Pattern.isMatch_append.mp h
  rw [Pattern.isMatch_literal.mp hext]
  obtain ⟨a, device, rfl, ha, hdevice⟩ := Pattern.isMatch_append.mp hstem
  obtain ⟨b, d₂, rfl, hb, hd₂⟩ := Pattern.isMatch_append.mp ha
  obtain ⟨c, counter, rfl, hc, hcounter⟩ := Pattern.isMatch_append.mp hb
  obtain ⟨physical, d₁, rfl, hphysical, hd₁⟩ := Pattern.isMatch_append.mp hc
  obtain ⟨hlen, -, hph⟩ := Pattern.isMatch_singleton.mp hphysical
  obtain ⟨-, -, hco⟩ := Pattern.isMatch_singleton.mp hcounter
  obtain ⟨-, -, hde⟩ := Pattern.isMatch_singleton.mp hdevice
  rw [Pattern.isMatch_literal.mp hd₁, Pattern.isMatch_literal.mp hd₂]
  refine ⟨_, rfl, fun hnil => ?_, fun x hx => ?_⟩
  · have := congrArg List.length hnil
    simp only [List.length_append, List.length_nil] at this
    simp only at hlen
    omega
  · rcases List.mem_append.mp hx with hx | hx
    · rcases List.mem_append.mp hx with hx | hx
      · rcases List.mem_append.mp hx with hx | hx
        · rcases List.mem_append.mp hx with hx | hx
          · exact isIdByte_of_isDigit (hph x hx)
          · exact isIdByte_dash x hx
        · exact isIdByte_of_isHexDigit (hco x hx)
      · exact isIdByte_dash x hx
    · exact isIdByte_of_isAlphaNum (hde x hx)

theorem isIdByte_dot : isIdByte (octet '.') = false := by decide

theorem isIdByte_slash : isIdByte slash = false := by decide

theorem NameParts.normal_vault {name vault file : GoString} (h : NameParts name vault file) : Normal vault :=
  normal_of_forall isIdByte_dot isIdByte_slash h.vault_ne h.vault_bytes

theorem NameParts.normal_file {name vault file : GoString} (h : NameParts name vault file) : Normal file := by
  obtain ⟨stem, rfl, hne, hbytes⟩ := file_parts h.file_match
  have hlen : 4 < (stem ++ go ".edk").length := by
    rw [List.length_append]
    have := List.length_pos_iff.mpr hne
    have h4 : (go ".edk").length = 4 := rfl
    omega
  refine ⟨fun hn => ?_, fun hn => ?_, fun hn => ?_, fun hs => ?_⟩
  · rw [hn] at hlen
    exact absurd hlen (by decide)
  · rw [hn] at hlen
    exact absurd hlen (by decide)
  · rw [hn] at hlen
    exact absurd hlen (by decide)
  · rcases List.mem_append.mp hs with hs | hs
    · exact Bool.false_ne_true (isIdByte_slash.symm.trans (hbytes slash hs))
    · exact absurd hs (by decide)

/-! ## Segments -/

theorem splitSlash_append (a b : GoString) : splitSlash (a ++ slash :: b) = splitSlash a ++ splitSlash b :=
  List.splitOn_append_cons_self a b

theorem splitSlash_of_no_slash {s : GoString} (h : slash ∉ s) : splitSlash s = [s] := List.splitOn_eq_singleton h

theorem NameParts.split {name vault file : GoString} (h : NameParts name vault file) :
    splitSlash name = [go "vaults", vault, go "ops", file] := by
  have hname : name = go "vaults" ++ slash :: (vault ++ slash :: (go "ops" ++ slash :: file)) := by
    rw [h.eq]
    show go "vaults/" ++ vault ++ go "/ops/" ++ file = _
    rw [show go "vaults/" = go "vaults" ++ [slash] from rfl, show go "/ops/" = slash :: (go "ops" ++ [slash]) from rfl]
    simp only [List.append_assoc, List.cons_append, List.nil_append]
  rw [hname, splitSlash_append, splitSlash_append, splitSlash_append, splitSlash_of_no_slash h.normal_vault.no_slash,
    splitSlash_of_no_slash h.normal_file.no_slash]
  rfl

/-- The segments that a path is resolved by. -/
def segments (p : GoString) : List GoString := (splitSlash p).filter (· ≠ [])

/-- The absolute path of segments. -/
def absolute (segs : List GoString) : GoString := slash :: joinSlash segs

theorem joinSlash_append {a b : List GoString} (ha : a ≠ []) (hb : b ≠ []) :
    joinSlash (a ++ b) = joinSlash a ++ slash :: joinSlash b := by
  induction a with
  | nil => exact absurd rfl ha
  | cons x a ih =>
    unfold joinSlash at ih ⊢
    cases a with
    | nil =>
      obtain ⟨y, b, rfl⟩ := List.exists_cons_of_ne_nil hb
      simp [List.intercalate_cons_cons]
    | cons z a =>
      rw [List.cons_append, List.cons_append, List.intercalate_cons_cons, List.intercalate_cons_cons,
        ← List.cons_append, ih (List.cons_ne_nil z a)]
      simp only [List.append_assoc, List.cons_append]

theorem splitSlash_joinSlash {segs : List GoString} (h : ∀ s ∈ segs, slash ∉ s) (hne : segs ≠ []) :
    splitSlash (joinSlash segs) = segs := List.splitOn_intercalate slash h hne

theorem filter_normal {segs : List GoString} (h : ∀ s ∈ segs, Normal s) : segs.filter (· ≠ []) = segs :=
  List.filter_eq_self.mpr (fun s hs => by simpa using (h s hs).ne_nil)

theorem segments_absolute {segs : List GoString} (h : ∀ s ∈ segs, Normal s) : segments (absolute segs) = segs := by
  have hsplit : splitSlash (absolute segs) = [] :: splitSlash (joinSlash segs) := splitSlash_append [] (joinSlash segs)
  unfold segments
  rw [hsplit]
  by_cases hne : segs = []
  · rw [hne]
    rfl
  · rw [splitSlash_joinSlash (fun s hs => (h s hs).no_slash) hne, List.filter_cons_of_neg (by simp)]
    exact filter_normal h

theorem absolute_injective {a b : List GoString} (ha : ∀ s ∈ a, Normal s) (hb : ∀ s ∈ b, Normal s)
    (h : absolute a = absolute b) : a = b := by
  rw [← segments_absolute ha, ← segments_absolute hb, h]

/-- Cleaning keeps segments that are normal, and drops empty ones. -/
theorem foldl_cleanSegment (rooted : Bool) : ∀ (segs acc : List GoString), (∀ s ∈ segs, s = [] ∨ Normal s) →
    segs.foldl (cleanSegment rooted) acc = (segs.filter (· ≠ [])).reverse ++ acc
  | [], acc, _ => rfl
  | s :: segs, acc, h => by
    have hrest : ∀ x ∈ segs, x = [] ∨ Normal x := fun x hx => h x (List.mem_cons_of_mem _ hx)
    rw [List.foldl_cons, foldl_cleanSegment rooted segs _ hrest]
    by_cases hs : s = []
    · rw [hs, List.filter_cons_of_neg (by simp)]
      rfl
    · have hn := (h s List.mem_cons_self).resolve_left hs
      have hstep : cleanSegment rooted acc s = s :: acc := by
        unfold cleanSegment
        rw [if_neg (fun h => h.elim hn.ne_nil hn.ne_dot), if_neg hn.ne_dots]
      rw [hstep, List.filter_cons_of_pos (by simpa using hs), List.reverse_cons, List.append_assoc]
      rfl

theorem clean_absolute {p : GoString} (h : ∀ s ∈ splitSlash p, s = [] ∨ Normal s) :
    clean (slash :: p) = absolute (segments p) := by
  unfold clean absolute segments
  simp only [if_true]
  rw [foldl_cleanSegment true (splitSlash p) [] h, List.append_nil, List.reverse_reverse]

/-- Joining a clean absolute path and a relative one. -/
theorem join_absolute {segs : List GoString} (hs : ∀ s ∈ segs, Normal s) {b : GoString}
    (hb : ∀ s ∈ splitSlash b, s = [] ∨ Normal s) : join (absolute segs) b = absolute (segs ++ segments b) := by
  have hsplit : splitSlash (joinSlash segs ++ slash :: b) = splitSlash (joinSlash segs) ++ splitSlash b :=
    splitSlash_append _ _
  have hin : ∀ s ∈ splitSlash (joinSlash segs), s = [] ∨ Normal s := by
    by_cases hne : segs = []
    · rw [hne]
      exact fun s h => Or.inl (List.mem_singleton.mp h)
    · rw [splitSlash_joinSlash (fun s h => (hs s h).no_slash) hne]
      exact fun s h => Or.inr (hs s h)
  have hfil : (splitSlash (joinSlash segs)).filter (· ≠ []) = segs := by
    by_cases hne : segs = []
    · rw [hne]
      rfl
    · rw [splitSlash_joinSlash (fun s h => (hs s h).no_slash) hne]
      exact filter_normal hs
  unfold join
  rw [if_pos (show absolute segs ≠ [] from List.cons_ne_nil _ _)]
  show clean (slash :: (joinSlash segs ++ slash :: b)) = _
  rw [clean_absolute]
  · unfold segments
    rw [hsplit, List.filter_append, hfil]
  · intro s h
    rw [hsplit] at h
    exact (List.mem_append.mp h).elim (hin s) (hb s)

/-! ## Paths -/

/-- An absolute path as `filepath.Abs` gives it. -/
def IsRoot (root : GoString) : Prop := ∃ segs, root = absolute segs ∧ ∀ s ∈ segs, Normal s

/-- The path of an account's directory, or of an object of the account. -/
theorem path_eq {root account name : GoString} {base : List GoString} (hroot : root = absolute base)
    (hbase : ∀ s ∈ base, Normal s) (ha : validAccountID account = .ok ())
    (hn : ∀ s ∈ splitSlash name, s = [] ∨ Normal s) :
    path root account name = .ok (absolute (base ++ account :: segments name)) := by
  have hna := normal_account ha
  obtain ⟨hne, hbytes⟩ := validAccountID_ok ha
  have hseg : segments account = [account] := by
    unfold segments
    rw [splitSlash_of_no_slash hna.no_slash]
    exact filter_normal (fun s hs => (List.mem_singleton.mp hs) ▸ hna)
  have hacc : join root account = absolute (base ++ [account]) := by
    rw [hroot, join_absolute hbase, hseg]
    intro s hs
    rw [splitSlash_of_no_slash hna.no_slash] at hs
    exact Or.inr (List.mem_singleton.mp hs ▸ hna)
  have hbase' : ∀ s ∈ base ++ [account], Normal s := by
    intro s hs
    rcases List.mem_append.mp hs with hs | hs
    · exact hbase s hs
    · exact List.mem_singleton.mp hs ▸ hna
  have hfull : join (join root account) name = absolute (base ++ account :: segments name) := by
    rw [hacc, join_absolute hbase' hn, List.append_assoc]
    rfl
  have hany : ¬ (account = [] ∨ account.any (fun c => c = slash || c = octet '\\' || c = octet '.') = true) := by
    rintro (h | h)
    · exact hne h
    · obtain ⟨c, hc, hbad⟩ := List.any_eq_true.mp h
      have hno : ∀ c, isAccountByte c = true → (c = slash || c = octet '\\' || c = octet '.') = false := by decide +kernel
      rw [hno c (hbytes c hc)] at hbad
      cases hbad
  unfold path
  rw [if_neg hany]
  simp only
  rw [hfull, hacc, if_neg]
  rintro ⟨hdiff, hout⟩
  refine hout ?_
  by_cases hs : segments name = []
  · exact absurd (by rw [hs]) hdiff
  · refine ⟨joinSlash (segments name), ?_⟩
    unfold absolute
    rw [show base ++ account :: segments name = (base ++ [account]) ++ segments name by simp,
      joinSlash_append (by simp) hs]
    simp only [List.append_assoc, List.cons_append, List.nil_append]

end Server

end EasyDocket
