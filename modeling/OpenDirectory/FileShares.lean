import OpenDirectory.RoleInstalls
import OpenDirectory.Value

/-! File shares: the definitions the console checks and stores, the tasks it builds from them, and what the agent of the
machine that holds the directory lets through. -/

namespace OpenDirectory.FileShares

open Agent (goSpace)
open Pattern (run headed closed pySpace graphic)
open RoleInstalls (Refusal stringList)

inductive ShareError where
  | name (name : String)
  | path (path : String)
  | notSafe (path : String)
  | principal (principal : String)
  | kind (kind : String)
  | access (access : String)
  | twice (principal : String)
  deriving DecidableEq

structure Entry where
  principal : String
  kind : String := "group"
  access : String := "read"
  inherit : Bool := true
  deriving DecidableEq

def nameChar (c : Char) : Bool := c.isAlphanum || c ∈ ['.', '_', ' ', '-']

def principalChar (c : Char) : Bool := c.isAlphanum || c ∈ ['.', '_', '$', ' ', '-']

def pathChar (c : Char) : Bool := c.isAlphanum || c ∈ ['.', '_', '/', '-']

/-- `_NAME_RE`, the agent's `safeName` as well. -/
def nameText : List Char → Bool := headed (fun c => c.isAlphanum) nameChar 0 62

def principalText : List Char → Bool := headed (fun c => c.isAlphanum) principalChar 0 63

/-- `_PATH_RE`, the agent's `safePath` as well. -/
def pathText : List Char → Bool := headed (· = '/') pathChar 1 255

/-- `ACCESS_LEVELS` -/
def accessLevel : String → Option String
  | "read" => some "r-x"
  | "change" => some "rwx"
  | "full" => some "rwx"
  | _ => none

def validateName (name : String) : Except ShareError String :=
  let name := Text.strip pySpace name
  if closed nameText name then .ok name else .error (.name name)

/-- A path without the white space around it and the slashes it ends in. -/
def cleaned (path : String) : String :=
  let path := Text.stripEnd (· = '/') (Text.strip pySpace path)
  if path = "" then "/" else path

def forbidden : List String := ["/", "/etc", "/boot", "/dev", "/proc", "/sys", "/root", "/var/lib/samba"]

def validatePath (path : String) : Except ShareError String :=
  let path := cleaned path
  if !closed pathText path || Text.holds path ".." then .error (.path path)
  else if path ∈ forbidden ∨ ∃ bad ∈ forbidden.tail, Text.startsWith path (bad ++ "/") then .error (.notSafe path)
  else .ok path

def validatePrincipal (principal : String) : Except ShareError String :=
  let principal := Text.strip pySpace principal
  if closed principalText principal then .ok principal else .error (.principal principal)

/-- The `setfacl` arguments of one entry. -/
def specOf (entry : Entry) (bits : String) : List String :=
  let spec := (if entry.kind = "user" then "u" else "g") ++ ":" ++ entry.principal ++ ":" ++ bits
  if entry.inherit then [spec, "d:" ++ spec] else [spec]

def aclSpec (entries : List Entry) : List String :=
  entries.flatMap fun entry => specOf entry ((accessLevel entry.access).getD "")

section
variable [Runtime]

/-- The entries after some that were `seen` already. -/
def validateEntries (seen : List (String × String)) : List Entry → Except ShareError (List Entry)
  | [] => .ok []
  | item :: raw =>
      if item.kind ∉ ["user", "group"] then .error (.kind item.kind)
      else if (accessLevel item.access).isNone then .error (.access item.access)
      else do
        let principal ← validatePrincipal item.principal
        if seen.contains (item.kind, lower principal) then .error (.twice principal)
        else do
          let rest ← validateEntries ((item.kind, lower principal) :: seen) raw
          return { item with principal } :: rest

structure ShareIn where
  nodeFqdn : String
  name : String
  path : String
  comment : String := ""
  owner : String := "root"
  ownerGroup : String := "Domain Admins"
  entries : List Entry := []
  browseable : Bool := true
  readOnly : Bool := false

/-- The fields an edit leaves out stay as they are. -/
structure ShareUpdate where
  comment : Option String := none
  owner : Option String := none
  ownerGroup : Option String := none
  entries : Option (List Entry) := none
  browseable : Option Bool := none
  readOnly : Option Bool := none

/-- A row of `file_share`, in the shape of the body it was created from. -/
abbrev Row := ShareIn

def createShare (body : ShareIn) : Except ShareError Row := do
  let name ← validateName body.name
  let path ← validatePath body.path
  let entries ← validateEntries [] body.entries
  let owner ← validatePrincipal body.owner
  let ownerGroup ← validatePrincipal body.ownerGroup
  return { body with name, path, owner, ownerGroup, entries }

def updateShare (row : Row) (body : ShareUpdate) : Except ShareError Row := do
  let entries ← body.entries.mapM (validateEntries [])
  let owner ← body.owner.mapM validatePrincipal
  let ownerGroup ← body.ownerGroup.mapM validatePrincipal
  return { row with
    comment := body.comment.getD row.comment
    owner := owner.getD row.owner
    ownerGroup := ownerGroup.getD row.ownerGroup
    entries := entries.getD row.entries
    browseable := body.browseable.getD row.browseable
    readOnly := body.readOnly.getD row.readOnly }

/-- The rows that come about. What a collection whose profiles lie on the share writes into its entries is left open. -/
inductive Stored : Row → Prop
  | create {body : ShareIn} {row : Row} (h : createShare body = .ok row) : Stored row
  | update {row row' : Row} {body : ShareUpdate} (hrow : Stored row) (h : updateShare row body = .ok row') : Stored row'
  | grant {row : Row} (hrow : Stored row) (entries : List Entry) : Stored { row with entries }

structure Payload where
  name : String
  path : String
  comment : String
  owner : String
  group : String
  browseable : Bool
  readOnly : Bool
  acl : List String
  other : String

/-- What the agent needs to make a share real on its own machine. -/
def asTask (row : Row) : Except ShareError Payload := do
  let entries ← validateEntries [] row.entries
  return {
    name := ← validateName row.name
    path := ← validatePath row.path
    comment := row.comment
    owner := ← validatePrincipal (if row.owner = "" then "root" else row.owner)
    group := ← validatePrincipal (if row.ownerGroup = "" then "Domain Admins" else row.ownerGroup)
    browseable := row.browseable
    readOnly := row.readOnly
    acl := aclSpec entries
    other := "---" }

end

structure Share where
  name : String
  path : String
  comment : String
  owner : String
  group : String
  browseable : Bool
  readOnly : Bool
  acl : List String

/-- `^d?:?[ugom]:[A-Za-z0-9._$ -]*:[rwx-]{3}$` -/
def safeEntry (text : List Char) : Bool :=
  let text := if text.head? = some 'd' then text.tail else text
  let text := if text.head? = some ':' then text.tail else text
  match text with
  | who :: ':' :: rest =>
      who ∈ ['u', 'g', 'o', 'm'] &&
        match rest.dropWhile principalChar with
        | ':' :: bits => run (· ∈ ['r', 'w', 'x', '-']) 3 3 bits
        | _ => false
  | _ => false

def systemPaths : List String :=
  ["/", "/bin", "/boot", "/dev", "/etc", "/lib", "/proc", "/root", "/run", "/sbin", "/sys", "/usr", "/var/lib/samba"]

def refuseSystemPath (path : String) : Bool :=
  let clean := Text.stripEnd (· = '/') path
  let clean := if clean = "" then "/" else clean
  systemPaths.any fun bad => clean = bad || (bad ≠ "/" && Text.startsWith clean (bad ++ "/"))

def parseShare (payload : Payload) : Except Refusal Share :=
  let name := Text.strip goSpace payload.name
  let path := Text.strip goSpace payload.path
  if !nameText name.toList then .error (.invalid "share name" name)
  else if !pathText path.toList || Text.holds path ".." then .error (.invalid "share path" path)
  else if refuseSystemPath path then .error (.system path)
  else do
    let acl ← stringList payload.acl safeEntry
    return {
      name, path, acl
      comment := Text.strip goSpace payload.comment
      owner := Text.strip goSpace payload.owner
      group := Text.strip goSpace payload.group
      browseable := payload.browseable
      readOnly := payload.readOnly }

/-- A path that is one of some directories or lies below one. -/
def Within (directories : List String) (path : String) : Prop :=
  ∃ bad ∈ directories, path = bad ∨ Text.startsWith path (bad ++ "/") = true

/-- The directories only the agent keeps from being shared. -/
def agentOnly : List String := ["/bin", "/lib", "/run", "/sbin", "/usr"]

theorem graphic_of_alphanum {c : Char} (h : c.isAlphanum = true) : graphic c = true := by
  unfold graphic
  rw [Bool.and_eq_true, decide_eq_true_eq, decide_eq_true_eq]
  simp only [Char.isAlphanum, Char.isAlpha, Char.isUpper, Char.isLower, Char.isDigit, Bool.or_eq_true, Bool.and_eq_true,
    decide_eq_true_eq, ge_iff_le] at h
  constructor
  · show (33 : UInt32) ≤ c.val
    rcases h with (⟨h, -⟩ | ⟨h, -⟩) | ⟨h, -⟩ <;>
    · refine UInt32.le_trans ?_ h
      decide
  · show c.val ≤ (126 : UInt32)
    rcases h with (⟨-, h⟩ | ⟨-, h⟩) | ⟨-, h⟩ <;>
    · refine UInt32.le_trans h ?_
      decide

theorem graphic_of_pathChar {c : Char} (h : pathChar c = true) : graphic c = true := by
  simp only [pathChar, Bool.or_eq_true, decide_eq_true_eq, List.mem_cons, List.not_mem_nil, or_false] at h
  rcases h with h | rfl | rfl | rfl | rfl
  · exact graphic_of_alphanum h
  all_goals decide

theorem pathText_all {text : List Char} (h : pathText text = true) : ∀ c ∈ text, pathChar c = true :=
  Pattern.headed_all (fun c hc => by rw [of_decide_eq_true hc]; decide) h

theorem validatePath_ok {path path' : String} (h : validatePath path = .ok path') : path' = cleaned path ∧
    closed pathText path' = true ∧ Text.holds path' ".." = false ∧ ¬ Within forbidden.tail path' := by
  unfold validatePath at h
  dsimp only at h
  split at h
  · cases h
  next hpattern =>
    split at h
    · cases h
    next hsafe =>
      obtain rfl := Except.ok.inj h
      simp only [Bool.or_eq_true, Bool.not_eq_true', not_or, Bool.not_eq_false, Bool.not_eq_true] at hpattern
      refine ⟨rfl, hpattern.1, hpattern.2, ?_⟩
      rintro ⟨bad, hbad, heq | hbelow⟩
      · exact hsafe (.inl (heq ▸ List.mem_of_mem_tail hbad))
      · exact hsafe (.inr ⟨bad, hbad, hbelow⟩)

theorem pathText_cleaned {path path' path'' : String} (h : validatePath path = .ok path')
    (h' : validatePath path' = .ok path'') : pathText path''.toList = true := by
  obtain ⟨-, hclosed, -, -⟩ := validatePath_ok h
  obtain ⟨heq, hclosed', -, -⟩ := validatePath_ok h'
  obtain ⟨text, htext, hends⟩ := Pattern.closed_iff.mp hclosed
  have hplain (c : Char) (hc : c ∈ text) : pySpace c = false :=
    Pattern.pySpace_of_graphic (graphic_of_pathChar (pathText_all htext c hc))
  have hstrip : (Text.strip pySpace path').toList = text := by
    rcases hends with hends | hends
    · rw [Text.strip_eq_self (fun c hc => hplain c (hends ▸ List.mem_of_mem_head? hc))
        (fun c hc => hplain c (hends ▸ List.mem_of_mem_getLast? hc)), hends]
    · exact Pattern.strip_concat hplain (by rintro rfl; cases htext) (by decide) hends
  rw [Pattern.closed_of_last] at hclosed'
  · exact hclosed'
  · intro hlast
    have hmem := List.mem_of_mem_getLast? hlast
    rw [heq, cleaned] at hmem
    split at hmem
    · revert hmem
      decide
    · have hin := Pattern.mem_stripEnd hmem
      rw [hstrip] at hin
      exact absurd (hplain '\n' hin) (by decide)

theorem mem_systemPaths (bad : String) : bad ∈ systemPaths.tail ↔ bad ∈ forbidden.tail ∨ bad ∈ agentOnly := by
  simp only [systemPaths, forbidden, agentOnly, List.tail_cons, List.mem_cons, List.not_mem_nil, or_false]
  tauto

theorem refuseSystemPath_iff {path : String} (hslash : ∀ c ∈ path.toList.getLast?, decide (c = '/') = false)
    (hempty : path ≠ "") : refuseSystemPath path = true ↔ Within forbidden.tail path ∨ Within agentOnly path := by
  have hroot : path ≠ "/" := by
    rintro rfl
    exact absurd (hslash '/' (by decide)) (by decide)
  have hwithin : refuseSystemPath path = true ↔ Within systemPaths.tail path := by
    unfold refuseSystemPath
    rw [Text.stripEnd_eq_self hslash]
    dsimp only
    rw [if_neg hempty, systemPaths, List.any_cons, decide_eq_false hroot, decide_eq_false (by simp), Bool.false_and,
      Bool.or_false, Bool.false_or, List.any_eq_true]
    refine exists_congr fun bad => and_congr_right fun hbad => ?_
    have hbad : bad ≠ "/" := by
      rintro rfl
      revert hbad
      decide
    rw [Bool.or_eq_true, Bool.and_eq_true, decide_eq_true_eq, decide_eq_true_eq, and_iff_right hbad]
  rw [hwithin]
  unfold Within
  simp only [mem_systemPaths, or_and_right, exists_or]

theorem last_cleaned {path : String} (h : cleaned path ≠ "/") :
    ∀ c ∈ (cleaned path).toList.getLast?, decide (c = '/') = false := by
  unfold cleaned at h ⊢
  dsimp only at h ⊢
  split at h
  · exact absurd rfl h
  next hne =>
    rw [if_neg hne]
    exact Pattern.last_stripEnd

theorem validateName_ok {name name' : String} (h : validateName name = .ok name') :
    nameText (Text.strip goSpace name').toList = true := by
  unfold validateName at h
  dsimp only at h
  split at h
  next hclosed =>
    obtain rfl := Except.ok.inj h
    rw [Pattern.strip_strip fun c hc => RoleInstalls.pySpace_of_goSpace hc]
    rwa [Pattern.closed_strip (by decide)] at hclosed
  · cases h

theorem validatePrincipal_ok {principal principal' : String} (h : validatePrincipal principal = .ok principal') :
    ∀ c ∈ principal'.toList, principalChar c = true := by
  unfold validatePrincipal at h
  dsimp only at h
  split at h
  next hclosed =>
    obtain rfl := Except.ok.inj h
    rw [Pattern.closed_strip (by decide)] at hclosed
    exact Pattern.headed_all (fun c hc => by rw [principalChar, hc, Bool.true_or]) hclosed
  · cases h

/-- An entry that was checked: a principal of plain characters and a level of access there is. -/
def Checked (entry : Entry) : Prop :=
  (∀ c ∈ entry.principal.toList, principalChar c = true) ∧ entry.access ∈ ["read", "change", "full"]

theorem accessLevel_isSome {access : String} (h : ¬ (accessLevel access).isNone = true) :
    access ∈ ["read", "change", "full"] := by
  unfold accessLevel at h
  split at h
  · decide
  · decide
  · decide
  · exact absurd rfl h

theorem checked_of_validateEntries [Runtime] {raw entries : List Entry} {seen : List (String × String)}
    (h : validateEntries seen raw = .ok entries) : ∀ entry ∈ entries, Checked entry := by
  induction raw generalizing seen entries with
  | nil =>
      cases h
      exact fun _ hentry => absurd hentry List.not_mem_nil
  | cons item raw ih =>
      unfold validateEntries at h
      split at h
      · cases h
      split at h
      · cases h
      next haccess =>
        obtain ⟨principal, hprincipal, h⟩ := Except.bind_eq_ok.mp h
        split at h
        · cases h
        obtain ⟨rest, hrest, h⟩ := Except.bind_eq_ok.mp h
        cases h
        refine List.forall_mem_cons.mpr ⟨⟨validatePrincipal_ok hprincipal, accessLevel_isSome haccess⟩, ih hrest⟩

theorem safeEntry_spec {who : Char} {principal : String} {bits : List Char} (hwho : who ∈ ['u', 'g'])
    (hprincipal : ∀ c ∈ principal.toList, principalChar c = true)
    (hbits : run (· ∈ ['r', 'w', 'x', '-']) 3 3 bits = true) :
    safeEntry (who :: ':' :: (principal.toList ++ ':' :: bits)) = true ∧
      safeEntry ('d' :: ':' :: who :: ':' :: (principal.toList ++ ':' :: bits)) = true := by
  have hdrop : (principal.toList ++ ':' :: bits).dropWhile principalChar = ':' :: bits := by
    rw [List.dropWhile_append_of_pos hprincipal, List.dropWhile_cons, if_neg (by decide)]
  have hwho : (decide (who ∈ ['u', 'g', 'o', 'm'])) = true ∧ who ≠ 'd' ∧ who ≠ ':' := by
    rcases List.mem_pair.mp hwho with rfl | rfl <;> decide
  constructor
  · unfold safeEntry
    simp only [List.head?_cons, Option.some.injEq, if_neg hwho.2.1, if_neg hwho.2.2, hwho.1, Bool.true_and, hdrop, hbits]
  · unfold safeEntry
    simp only [List.head?_cons, List.tail_cons, if_true, hwho.1, Bool.true_and, hdrop, hbits]

theorem safeEntry_specOf {entry : Entry} (h : Checked entry) :
    ∀ spec ∈ specOf entry ((accessLevel entry.access).getD ""), safeEntry (Text.strip goSpace spec).toList = true := by
  have hbits : ∃ front, ((accessLevel entry.access).getD "").toList = front ++ ['x'] ∧
      run (· ∈ ['r', 'w', 'x', '-']) 3 3 ((accessLevel entry.access).getD "").toList = true := by
    have haccess := h.2
    simp only [List.mem_cons, List.not_mem_nil, or_false] at haccess
    rcases haccess with haccess | haccess | haccess <;> rw [haccess]
    · exact ⟨['r', '-'], by decide, by decide⟩
    · exact ⟨['r', 'w'], by decide, by decide⟩
    · exact ⟨['r', 'w'], by decide, by decide⟩
  obtain ⟨front, hfront, hrun⟩ := hbits
  have hspec : ∃ who ∈ ['u', 'g'], ((if entry.kind = "user" then "u" else "g") ++ ":" ++ entry.principal ++ ":" ++
      (accessLevel entry.access).getD "").toList =
        who :: ':' :: (entry.principal.toList ++ ':' :: ((accessLevel entry.access).getD "").toList) := by
    by_cases hkind : entry.kind = "user"
    · exact ⟨'u', by decide, by simp [hkind]⟩
    · exact ⟨'g', by decide, by simp [hkind]⟩
  obtain ⟨who, hwho, htext⟩ := hspec
  obtain ⟨hplain, hdefault⟩ := safeEntry_spec hwho h.1 hrun
  have htrim {text : String} (first : Char) (rest : List Char) (hfirst : goSpace first = false)
      (heq : text.toList = first :: rest ++ ['x']) : Text.strip goSpace text = text := by
    refine Text.strip_eq_self ?_ ?_ <;> intro c hc <;> rw [heq] at hc
    · cases hc
      exact hfirst
    · rw [List.getLast?_concat] at hc
      cases hc
      rfl
  have hwhoSpace : goSpace who = false := by
    rcases List.mem_pair.mp hwho with rfl | rfl <;> decide
  intro spec hmem
  unfold specOf at hmem
  dsimp only at hmem
  have hboth : spec = (if entry.kind = "user" then "u" else "g") ++ ":" ++ entry.principal ++ ":" ++
        (accessLevel entry.access).getD "" ∨
      spec = "d:" ++ ((if entry.kind = "user" then "u" else "g") ++ ":" ++ entry.principal ++ ":" ++
        (accessLevel entry.access).getD "") := by
    split at hmem
    · simpa using hmem
    · exact .inl (List.mem_singleton.mp hmem)
  rcases hboth with rfl | rfl
  · rw [htrim who (':' :: (entry.principal.toList ++ ':' :: front)) hwhoSpace (by rw [htext, hfront]; simp), htext]
    exact hplain
  · have hlist := (String.toList_append (s := "d:") (t := (if entry.kind = "user" then "u" else "g") ++ ":" ++
        entry.principal ++ ":" ++ (accessLevel entry.access).getD ""))
    rw [htext] at hlist
    rw [htrim 'd' (':' :: who :: ':' :: (entry.principal.toList ++ ':' :: front)) (by decide)
      (by rw [hlist, hfront]; simp), hlist]
    exact hdefault

section
variable [Runtime]

theorem path_of_stored {row : Row} (h : Stored row) : ∃ path, validatePath path = .ok row.path := by
  induction h with
  | create h =>
      obtain ⟨_, -, h⟩ := Except.bind_eq_ok.mp h
      obtain ⟨path, hpath, h⟩ := Except.bind_eq_ok.mp h
      obtain ⟨_, -, h⟩ := Except.bind_eq_ok.mp h
      obtain ⟨_, -, h⟩ := Except.bind_eq_ok.mp h
      obtain ⟨_, -, h⟩ := Except.bind_eq_ok.mp h
      cases h
      exact ⟨_, hpath⟩
  | update _ h ih =>
      obtain ⟨_, -, h⟩ := Except.bind_eq_ok.mp h
      obtain ⟨_, -, h⟩ := Except.bind_eq_ok.mp h
      obtain ⟨_, -, h⟩ := Except.bind_eq_ok.mp h
      cases h
      exact ih
  | grant _ _ ih => exact ih

/-- A share the console accepts is one for the agent exactly when it is none of the directories, and below none, that
only the agent refuses. -/
theorem parseShare_iff {row : Row} (hstored : Stored row) {payload : Payload} (h : asTask row = .ok payload) :
    (∃ share, parseShare payload = .ok share) ↔ ¬ Within agentOnly (cleaned row.path) := by
  unfold asTask at h
  obtain ⟨entries, hentries, h⟩ := Except.bind_eq_ok.mp h
  obtain ⟨name, hname, h⟩ := Except.bind_eq_ok.mp h
  obtain ⟨path, hpath, h⟩ := Except.bind_eq_ok.mp h
  obtain ⟨owner, -, h⟩ := Except.bind_eq_ok.mp h
  obtain ⟨group, -, h⟩ := Except.bind_eq_ok.mp h
  cases h
  obtain ⟨raw, hraw⟩ := path_of_stored hstored
  have htext := pathText_cleaned hraw hpath
  obtain ⟨hcleaned, -, hdots, hsafe⟩ := validatePath_ok hpath
  have hgraphic : path.toList.all graphic = true :=
    List.all_eq_true.mpr fun c hc => graphic_of_pathChar (pathText_all htext c hc)
  have hroot : path ≠ "/" := by
    rintro rfl
    revert htext
    decide
  have hempty : path ≠ "" := by
    rintro rfl
    revert htext
    decide
  have hnameText := validateName_ok hname
  have hacl : ∃ texts, stringList (aclSpec entries) safeEntry = .ok texts := by
    refine RoleInstalls.stringList_iff.mpr fun item hitem => ?_
    obtain ⟨entry, hentry, hitem⟩ := List.mem_flatMap.mp hitem
    exact safeEntry_specOf (checked_of_validateEntries hentries entry hentry) item hitem
  obtain ⟨texts, htexts⟩ := hacl
  have hslash : ∀ c ∈ path.toList.getLast?, decide (c = '/') = false := by
    rw [hcleaned]
    exact last_cleaned (hcleaned ▸ hroot)
  have hrefuse := refuseSystemPath_iff hslash hempty
  rw [or_iff_right hsafe] at hrefuse
  unfold parseShare
  dsimp only
  rw [RoleInstalls.strip_goSpace hgraphic, hnameText, Bool.not_true, if_neg Bool.false_ne_true, htext, hdots, Bool.not_true,
    Bool.or_self, if_neg Bool.false_ne_true, ← hcleaned, ← hrefuse]
  cases hcase : refuseSystemPath path with
  | true =>
      rw [if_pos rfl]
      exact iff_of_false (fun ⟨_, hshare⟩ => by cases hshare) fun hnot => hnot rfl
  | false =>
      rw [if_neg Bool.false_ne_true, htexts]
      exact iff_of_true ⟨_, rfl⟩ Bool.false_ne_true

end

end OpenDirectory.FileShares
