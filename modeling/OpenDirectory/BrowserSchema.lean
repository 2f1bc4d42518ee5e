import OpenDirectory.Value
import OpenDirectory.Text
import OpenDirectory.Lists

/-! The typed settings of a browser: what the schema accepts, and the object a stored row holds for
them. Every field is written out, the ones left at their default too. -/

namespace OpenDirectory.Browser

variable [Runtime]

inductive Choice where
  | unset | allow | block
  deriving DecidableEq

inductive StartPage where
  | unset | homepage | previousSession | newTab
  deriving DecidableEq

inductive BookmarksBar where
  | unset | always | never
  deriving DecidableEq

inductive History where
  | unset | keep | clearOnExit | disabled
  deriving DecidableEq

inductive ProxyMode where
  | unset | system | none | manual | pac
  deriving DecidableEq

inductive Shown where
  | unset | hide
  deriving DecidableEq

def Choice.text : Choice → String
  | .unset => "unset"
  | .allow => "allow"
  | .block => "block"

def StartPage.text : StartPage → String
  | .unset => "unset"
  | .homepage => "homepage"
  | .previousSession => "previous-session"
  | .newTab => "new-tab"

def BookmarksBar.text : BookmarksBar → String
  | .unset => "unset"
  | .always => "always"
  | .never => "never"

def History.text : History → String
  | .unset => "unset"
  | .keep => "keep"
  | .clearOnExit => "clear-on-exit"
  | .disabled => "disabled"

def ProxyMode.text : ProxyMode → String
  | .unset => "unset"
  | .system => "system"
  | .none => "none"
  | .manual => "manual"
  | .pac => "pac"

def Shown.text : Shown → String
  | .unset => "unset"
  | .hide => "hide"

structure Bookmark where
  name : String
  url : String

/-- Firefox or Chromium, in the console's own words. -/
structure Settings where
  startPage : StartPage := .unset
  homepage : String := ""
  homepageLocked : Bool := true
  bookmarksFolder : String := ""
  bookmarks : List Bookmark := []
  bookmarksBar : BookmarksBar := .unset
  extensionsInstall : List String := []
  extensionsBlock : List String := []
  extensionsUserInstall : Choice := .unset
  passwordManager : Choice := .unset
  autofill : Choice := .unset
  history : History := .unset
  privateBrowsing : Choice := .unset
  developerTools : Choice := .unset
  telemetry : Choice := .unset
  syncAccounts : Choice := .unset
  popups : Choice := .unset
  defaultSearch : String := ""
  defaultSearchUrl : String := ""
  downloadDirectory : String := ""
  proxyMode : ProxyMode := .unset
  proxyServer : String := ""
  proxyPacUrl : String := ""
  proxyBypass : List String := []
  blockedSites : List String := []
  allowedSites : List String := []
  firstRunPages : Shown := .unset
  defaultBrowserCheck : Shown := .unset
  extra : Value.Fields := []

def webAddressStart (value : String) (schemes : List String) : Bool :=
  schemes.any (Text.startsWith value)

def schemes : List String := ["https://", "http://", "file://"]

def addressAccepted (value : String) : Bool :=
  value.length ≤ 2048 && (value = "" || webAddressStart value schemes) &&
    !(value.toList.any fun c => c ∈ [' ', '\n', '\r', '\x00', '"', '\''])

/-- One line without quotes and without blanks around it. -/
def lineAccepted (longest : Nat) (entry : String) : Bool :=
  entry.length ≤ longest && !(entry.toList.any fun c => c ∈ ['\n', '\r', '\x00', '"', '\'']) &&
    Text.strip Runtime.blank entry = entry

def Bookmark.accepted (bookmark : Bookmark) : Bool :=
  1 ≤ bookmark.name.length && bookmark.name.length ≤ 120 && 1 ≤ bookmark.url.length &&
    bookmark.url.length ≤ 2048 && webAddressStart bookmark.url schemes

def linesAccepted (most longest : Nat) (entries : List String) : Bool :=
  entries.length ≤ most && entries.all (lineAccepted longest)

/-- The bounds and the rules of every field. -/
def Settings.accepted (s : Settings) : Bool :=
  addressAccepted s.homepage && s.bookmarksFolder.length ≤ 64 &&
    s.bookmarks.length ≤ 100 && s.bookmarks.all Bookmark.accepted &&
    linesAccepted 50 512 s.extensionsInstall &&
    linesAccepted 100 128 s.extensionsBlock &&
    s.defaultSearch.length ≤ 64 && addressAccepted s.defaultSearchUrl &&
    s.downloadDirectory.length ≤ 512 && s.proxyServer.length ≤ 253 &&
    addressAccepted s.proxyPacUrl && linesAccepted 50 253 s.proxyBypass &&
    linesAccepted 500 253 s.blockedSites && linesAccepted 500 253 s.allowedSites

def texts (entries : List String) : Value := .arr (entries.map .str)

def Bookmark.dump (bookmark : Bookmark) : Value :=
  .obj [("name", .str bookmark.name), ("url", .str bookmark.url)]

/-- Every field but the last. -/
def Settings.typed (s : Settings) : Value.Fields := [
  ("start_page", .str s.startPage.text),
  ("homepage", .str s.homepage),
  ("homepage_locked", .bool s.homepageLocked),
  ("bookmarks_folder", .str s.bookmarksFolder),
  ("bookmarks", .arr (s.bookmarks.map Bookmark.dump)),
  ("bookmarks_bar", .str s.bookmarksBar.text),
  ("extensions_install", texts s.extensionsInstall),
  ("extensions_block", texts s.extensionsBlock),
  ("extensions_user_install", .str s.extensionsUserInstall.text),
  ("password_manager", .str s.passwordManager.text),
  ("autofill", .str s.autofill.text),
  ("history", .str s.history.text),
  ("private_browsing", .str s.privateBrowsing.text),
  ("developer_tools", .str s.developerTools.text),
  ("telemetry", .str s.telemetry.text),
  ("sync_accounts", .str s.syncAccounts.text),
  ("popups", .str s.popups.text),
  ("default_search", .str s.defaultSearch),
  ("default_search_url", .str s.defaultSearchUrl),
  ("download_directory", .str s.downloadDirectory),
  ("proxy_mode", .str s.proxyMode.text),
  ("proxy_server", .str s.proxyServer),
  ("proxy_pac_url", .str s.proxyPacUrl),
  ("proxy_bypass", texts s.proxyBypass),
  ("blocked_sites", texts s.blockedSites),
  ("allowed_sites", texts s.allowedSites),
  ("first_run_pages", .str s.firstRunPages.text),
  ("default_browser_check", .str s.defaultBrowserCheck.text)]

def Settings.dump (s : Settings) : Value.Fields := s.typed ++ [("extra", .obj s.extra)]

def Choice.parse (value : String) : Option Choice := [.unset, .allow, .block].find? (·.text = value)

def StartPage.parse (value : String) : Option StartPage :=
  [.unset, .homepage, .previousSession, .newTab].find? (·.text = value)

def BookmarksBar.parse (value : String) : Option BookmarksBar :=
  [.unset, .always, .never].find? (·.text = value)

def History.parse (value : String) : Option History :=
  [.unset, .keep, .clearOnExit, .disabled].find? (·.text = value)

def ProxyMode.parse (value : String) : Option ProxyMode :=
  [.unset, .system, .none, .manual, .pac].find? (·.text = value)

def Shown.parse (value : String) : Option Shown := [.unset, .hide].find? (·.text = value)

def parseText : Value → Option String
  | .str s => some s
  | _ => none

def option {α : Type} (parse : String → Option α) (value : Value) : Option α :=
  (parseText value).bind parse

def parseBool : Value → Option Bool
  | .bool b => some b
  | _ => none

def parseFields : Value → Option Value.Fields
  | .obj fields => some fields
  | _ => none

def parseList {α : Type} (parse : Value → Option α) : Value → Option (List α)
  | .arr items => items.mapM parse
  | _ => none

def parseTexts : Value → Option (List String) := parseList parseText

def Bookmark.parse (value : Value) : Option Bookmark :=
  match value with
  | .obj fields => do
      let name ← (Dict.get fields "name").bind parseText
      let url ← (Dict.get fields "url").bind parseText
      if (Dict.keys fields).all (· ∈ ["name", "url"]) then some ⟨name, url⟩ else none
  | _ => none

/-- A field read by its name, or its default where there is none. -/
def field {α : Type} (fields : Value.Fields) (name : String) (default : α)
    (parse : Value → Option α) : Option α :=
  match Dict.get fields name with
  | none => some default
  | some value => parse value

/-- `BrowserSettings.model_validate`, on values whose types are already the fields' own. -/
def Settings.validate (fields : Value.Fields) : Option Settings := do
  let choice (name : String) := field fields name Choice.unset (option Choice.parse)
  let text (name : String) := field fields name "" parseText
  let lines (name : String) := field fields name [] parseTexts
  let s : Settings := {
    startPage := ← field fields "start_page" .unset (option StartPage.parse)
    homepage := ← text "homepage"
    homepageLocked := ← field fields "homepage_locked" true parseBool
    bookmarksFolder := ← text "bookmarks_folder"
    bookmarks := ← field fields "bookmarks" [] (parseList Bookmark.parse)
    bookmarksBar := ← field fields "bookmarks_bar" .unset (option BookmarksBar.parse)
    extensionsInstall := ← lines "extensions_install"
    extensionsBlock := ← lines "extensions_block"
    extensionsUserInstall := ← choice "extensions_user_install"
    passwordManager := ← choice "password_manager"
    autofill := ← choice "autofill"
    history := ← field fields "history" .unset (option History.parse)
    privateBrowsing := ← choice "private_browsing"
    developerTools := ← choice "developer_tools"
    telemetry := ← choice "telemetry"
    syncAccounts := ← choice "sync_accounts"
    popups := ← choice "popups"
    defaultSearch := ← text "default_search"
    defaultSearchUrl := ← text "default_search_url"
    downloadDirectory := ← text "download_directory"
    proxyMode := ← field fields "proxy_mode" .unset (option ProxyMode.parse)
    proxyServer := ← text "proxy_server"
    proxyPacUrl := ← text "proxy_pac_url"
    proxyBypass := ← lines "proxy_bypass"
    blockedSites := ← lines "blocked_sites"
    allowedSites := ← lines "allowed_sites"
    firstRunPages := ← field fields "first_run_pages" .unset (option Shown.parse)
    defaultBrowserCheck := ← field fields "default_browser_check" .unset (option Shown.parse)
    extra := ← field fields "extra" [] parseFields }
  if (Dict.keys fields).all (· ∈ Dict.keys ({} : Settings).dump) && s.accepted then some s
  else none

section

omit [Runtime]

theorem keys_dump (s : Settings) : Dict.keys s.dump = Dict.keys ({} : Settings).dump := rfl

theorem nodup_keys_dump (s : Settings) : (Dict.keys s.dump).Nodup := by
  rw [keys_dump]
  decide

theorem Choice.parse_text (c : Choice) : Choice.parse c.text = some c := by
  cases c <;> decide

theorem StartPage.parse_text (c : StartPage) : StartPage.parse c.text = some c := by
  cases c <;> decide

theorem BookmarksBar.parse_text (c : BookmarksBar) : BookmarksBar.parse c.text = some c := by
  cases c <;> decide

theorem History.parse_text (c : History) : History.parse c.text = some c := by
  cases c <;> decide

theorem ProxyMode.parse_text (c : ProxyMode) : ProxyMode.parse c.text = some c := by
  cases c <;> decide

theorem Shown.parse_text (c : Shown) : Shown.parse c.text = some c := by
  cases c <;> decide

theorem parseList_map {α : Type} {parse : Value → Option α} {dump : α → Value}
    (h : ∀ item, parse (dump item) = some item) (items : List α) :
    parseList parse (.arr (items.map dump)) = some items := by
  have hitems : (items.map dump).mapM parse = some items := by
    induction items with
    | nil => rfl
    | cons item items ih =>
        rw [List.map_cons, List.mapM_cons, ih, h]
        rfl
  exact hitems

theorem parseTexts_texts (entries : List String) : parseTexts (texts entries) = some entries :=
  parseList_map (fun s : String => (rfl : parseText (.str s) = some s)) entries

theorem parseList_bookmarks (bookmarks : List Bookmark) :
    parseList Bookmark.parse (.arr (bookmarks.map Bookmark.dump)) = some bookmarks :=
  parseList_map (fun b : Bookmark => (rfl : Bookmark.parse b.dump = some b)) bookmarks

end

theorem validate_dump {s : Settings} (h : s.accepted = true) :
    Settings.validate s.dump = some s := by
  have hkeys : ((Dict.keys s.dump).all fun x => decide (x ∈ Dict.keys ({} : Settings).dump)) =
      true := by
    rw [keys_dump]
    decide
  simp only [Settings.validate, hkeys]
  simp [field, Settings.dump, Settings.typed, Dict.get_cons, option, parseText, parseBool,
    parseFields, Choice.parse_text, StartPage.parse_text, BookmarksBar.parse_text,
    History.parse_text, ProxyMode.parse_text, Shown.parse_text, parseTexts_texts,
    parseList_bookmarks]
  exact h

omit [Runtime] in
theorem field_congr {α : Type} {fields fields' : Value.Fields} {name : String}
    (h : Dict.get fields name = Dict.get fields' name) (default : α) (parse : Value → Option α) :
    field fields name default parse = field fields' name default parse := by
  unfold field
  rw [h]

omit [Runtime] in
theorem bind_alike {α : Type} {read read' : Option α} {rest rest' : α → Option Settings}
    {f : Settings → Settings} (hread : read' = read)
    (hrest : ∀ a s, rest a = some s → rest' a = some (f s)) :
    ∀ s, read >>= rest = some s → read' >>= rest' = some (f s) := by
  intro s h
  obtain ⟨a, ha, hs⟩ := Option.bind_eq_some_iff.mp h
  rw [hread, ha]
  exact hrest a s hs

theorem validate_of_get {fields last extra : Value.Fields} {s : Settings}
    (hvalid : Settings.validate last = some s)
    (hkeys : ∀ name ∈ Dict.keys fields, name ∈ Dict.keys ({} : Settings).dump)
    (hget : ∀ name, name ≠ "extra" → Dict.get fields name = Dict.get last name)
    (hextra : Dict.get fields "extra" = some (.obj extra)) :
    Settings.validate fields = some { s with extra } := by
  have hall : ((Dict.keys fields).all fun x => decide (x ∈ Dict.keys ({} : Settings).dump)) =
      true := by
    simpa using hkeys
  have hread : field fields "extra" [] parseFields = some extra := by
    simp [field, hextra, parseFields]
  have hfield : ∀ {α : Type} (name : String), name ≠ "extra" → ∀ (default : α) parse,
      field fields name default parse = field last name default parse :=
    fun name hname => field_congr (hget name hname)
  suffices hgen : ∀ s, Settings.validate last = some s →
      Settings.validate fields = some { s with extra } from hgen s hvalid
  unfold Settings.validate
  rw [hread, hall]
  dsimp only
  iterate 28 refine bind_alike (hfield _ (by decide) _ _) fun _ => ?_
  intro s hs
  obtain ⟨_, _, hlast⟩ := Option.bind_eq_some_iff.mp hs
  split at hlast
  · rename_i haccepted
    cases hlast
    exact if_pos (Bool.and_eq_true_iff.mp haccepted).2
  · cases hlast
end OpenDirectory.Browser
