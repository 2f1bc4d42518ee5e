import OpenDirectory.BrowserSchema

/-! The browsers' own managed policy: what the typed settings and the password manager become in the
documents Firefox and Chromium read, and how those are folded into a merged document beside what is
there already. The dictionaries under `browser` are free-form, so folding may meet a value of any
shape. -/

namespace OpenDirectory.Browser

variable [Runtime]

section

omit [Runtime]

/-- Entries written only when a condition holds. -/
def given (condition : Bool) (entries : Value.Fields) : Value.Fields :=
  if condition then entries else []

/-- Allowed, blocked, or left to the browser. -/
def tristate : Choice → Option Bool
  | .allow => some true
  | .block => some false
  | .unset => none

def chosen (choice : Choice) (entries : Bool → Value.Fields) : Value.Fields :=
  match tristate choice with
  | none => []
  | some value => entries value

def record (fields : Value.Fields) : Value := .obj fields

def firefoxHome (s : Settings) : Value.Fields :=
  given (s.homepage ≠ "") [("URL", .str s.homepage), ("Locked", .bool s.homepageLocked)] ++
    match s.startPage with
    | .unset => []
    | .homepage => [("StartPage", .str "homepage")]
    | .previousSession => [("StartPage", .str "previous-session")]
    | .newTab => [("StartPage", .str "none")]

def managedBookmarks (s : Settings) : Value :=
  .arr (record [("toplevel_name",
      .str (if s.bookmarksFolder = "" then "Bookmarks" else s.bookmarksFolder))] ::
    s.bookmarks.map Bookmark.dump)

end

/-- An extension named by its id and where to install it from, or by its slug alone. -/
def firefoxExtension (entry : String) : String × String :=
  match Text.cut '=' entry with
  | some (identifier, url) =>
      (Text.strip Runtime.blank identifier, Text.strip Runtime.blank url)
  | none =>
      let slug := Text.strip Runtime.blank entry
      (slug, "https://addons.mozilla.org/firefox/downloads/latest/" ++ slug ++ "/latest.xpi")

def firefoxExtensions (s : Settings) : Value.Fields :=
  let blocked := given (s.extensionsUserInstall = .block)
    [("*", record [("installation_mode", .str "blocked"),
      ("blocked_install_message", .str "Extensions are installed by your organisation.")])]
  let installed := s.extensionsInstall.foldl (fun extensions entry =>
    let (identifier, url) := firefoxExtension entry
    Dict.set extensions identifier
      (record [("installation_mode", .str "force_installed"), ("install_url", .str url)])) blocked
  s.extensionsBlock.foldl (fun extensions entry =>
    Dict.set extensions entry (record [("installation_mode", .str "blocked")])) installed

section

omit [Runtime]

def firefoxHistory (s : Settings) : Value.Fields :=
  match s.history with
  | .clearOnExit => [("SanitizeOnShutdown", record [("History", .bool true), ("Cache", .bool true),
      ("Downloads", .bool true), ("FormData", .bool true), ("Locked", .bool true)])]
  | .disabled => [("Preferences", record [("places.history.enabled",
      record [("Value", .bool false), ("Status", .str "locked")])]),
      ("DisableFormHistory", .bool true)]
  | _ => []

def firefoxProxy (s : Settings) : Value.Fields :=
  let mode := match s.proxyMode with
    | .pac => "autoConfig"
    | mode => mode.text
  [("Locked", .bool true), ("Mode", .str mode)] ++
    given (s.proxyMode = .manual && s.proxyServer ≠ "") [("HTTPProxy", .str s.proxyServer),
      ("SSLProxy", .str s.proxyServer), ("UseHTTPProxyForAllProtocols", .bool true)] ++
    given (s.proxyMode = .pac && s.proxyPacUrl ≠ "") [("AutoConfigURL", .str s.proxyPacUrl)] ++
    given (!s.proxyBypass.isEmpty) [("Passthrough", .str (Text.join ", " s.proxyBypass))]

def firefoxSearch (s : Settings) : Value.Fields :=
  [("Default", .str s.defaultSearch)] ++
    given (s.defaultSearchUrl ≠ "") [("Add", .arr [record [("Name", .str s.defaultSearch),
      ("URLTemplate", .str s.defaultSearchUrl)]])]

end

/-- Firefox's `policies.json`. The policies named in `extra` are written over the others. -/
def firefox (s : Settings) : Value.Fields :=
  Dict.update (given (s.homepage ≠ "" || s.startPage ≠ .unset)
      [("Homepage", .obj (firefoxHome s))] ++
    given (!s.bookmarks.isEmpty) [("ManagedBookmarks", managedBookmarks s)] ++
    given (s.bookmarksBar ≠ .unset) [("DisplayBookmarksToolbar",
      .str (if s.bookmarksBar = .always then "always" else "never"))] ++
    given (!(firefoxExtensions s).isEmpty) [("ExtensionSettings", .obj (firefoxExtensions s))] ++
    chosen s.passwordManager (fun value => [("PasswordManagerEnabled", .bool value)]) ++
    chosen s.autofill (fun value => [("AutofillAddressEnabled", .bool value),
      ("AutofillCreditCardEnabled", .bool value)]) ++
    firefoxHistory s ++
    chosen s.privateBrowsing (fun value => [("DisablePrivateBrowsing", .bool !value)]) ++
    chosen s.developerTools (fun value => [("DisableDeveloperTools", .bool !value)]) ++
    chosen s.telemetry (fun value => [("DisableTelemetry", .bool !value)]) ++
    chosen s.syncAccounts (fun value => [("DisableFirefoxAccounts", .bool !value)]) ++
    chosen s.popups (fun value => [("PopupBlocking",
      record [("Default", .bool !value), ("Locked", .bool true)])]) ++
    given (s.defaultSearch ≠ "") [("SearchEngines", .obj (firefoxSearch s))] ++
    given (s.downloadDirectory ≠ "") [("DefaultDownloadDirectory", .str s.downloadDirectory),
      ("PromptForDownloadLocation", .bool false)] ++
    given (s.proxyMode ≠ .unset) [("Proxy", .obj (firefoxProxy s))] ++
    given (!s.blockedSites.isEmpty || !s.allowedSites.isEmpty) [("WebsiteFilter",
      record [("Block", texts s.blockedSites), ("Exceptions", texts s.allowedSites)])] ++
    given (s.firstRunPages = .hide) [("OverrideFirstRunPage", .str ""),
      ("OverridePostUpdatePage", .str ""), ("NoDefaultBookmarks", .bool true)] ++
    given (s.defaultBrowserCheck = .hide) [("DontCheckDefaultBrowser", .bool true)]) s.extra

/-- A Web Store id, or an id with its own update address. -/
def chromiumExtension (entry : String) : String :=
  if Text.contains entry ';' then Text.strip Runtime.blank entry
  else Text.strip Runtime.blank entry ++ ";https://clients2.google.com/service/update2/crx"

section

omit [Runtime]

def chromiumStart (s : Settings) : Value.Fields :=
  match s.startPage with
  | .homepage => given (s.homepage ≠ "") [("RestoreOnStartup", .int 4),
      ("RestoreOnStartupURLs", texts [s.homepage])]
  | .previousSession => [("RestoreOnStartup", .int 1)]
  | .newTab => [("RestoreOnStartup", .int 5)]
  | .unset => []

def chromiumHistory (s : Settings) : Value.Fields :=
  match s.history with
  | .clearOnExit => [("ClearBrowsingDataOnExitList", texts ["browsing_history", "download_history",
      "cookies_and_other_site_data", "cached_images_and_files", "autofill"])]
  | .disabled => [("SavingBrowserHistoryDisabled", .bool true)]
  | _ => []

def chromiumProxy (s : Settings) : Value.Fields :=
  let mode := match s.proxyMode with
    | .none => "direct"
    | .manual => "fixed_servers"
    | .pac => "pac_script"
    | mode => mode.text
  [("ProxyMode", .str mode)] ++
    given (s.proxyMode = .manual && s.proxyServer ≠ "") [("ProxyServer", .str s.proxyServer)] ++
    given (s.proxyMode = .pac && s.proxyPacUrl ≠ "") [("ProxyPacUrl", .str s.proxyPacUrl)] ++
    given (!s.proxyBypass.isEmpty) [("ProxyBypassList", .str (Text.join "," s.proxyBypass))]

end

def chromiumExtensions (s : Settings) : Value.Fields :=
  let blocklist := s.extensionsBlock ++ if s.extensionsUserInstall = .block then ["*"] else []
  given (!s.extensionsInstall.isEmpty)
      [("ExtensionInstallForcelist", texts (s.extensionsInstall.map chromiumExtension))] ++
    given (!blocklist.isEmpty) ([("ExtensionInstallBlocklist", texts blocklist)] ++
      given (!s.extensionsInstall.isEmpty) [("ExtensionInstallAllowlist",
        texts (s.extensionsInstall.map fun entry =>
          (Text.split ';' (chromiumExtension entry)).headD ""))])

/-- Chromium's managed policies. -/
def chromium (s : Settings) : Value.Fields :=
  Dict.update (given (s.homepage ≠ "") [("HomepageLocation", .str s.homepage),
      ("HomepageIsNewTabPage", .bool false), ("ShowHomeButton", .bool true)] ++
    chromiumStart s ++
    given (!s.bookmarks.isEmpty) [("ManagedBookmarks", managedBookmarks s)] ++
    given (s.bookmarksBar ≠ .unset) [("BookmarkBarEnabled", .bool (s.bookmarksBar = .always))] ++
    chromiumExtensions s ++
    chosen s.passwordManager (fun value => [("PasswordManagerEnabled", .bool value)]) ++
    chosen s.autofill (fun value => [("AutofillAddressEnabled", .bool value),
      ("AutofillCreditCardEnabled", .bool value)]) ++
    chromiumHistory s ++
    chosen s.privateBrowsing (fun value => [("IncognitoModeAvailability",
      .int (if value then 0 else 1))]) ++
    chosen s.developerTools (fun value => [("DeveloperToolsAvailability",
      .int (if value then 1 else 2))]) ++
    chosen s.telemetry (fun value => [("MetricsReportingEnabled", .bool value)]) ++
    chosen s.syncAccounts (fun value => [("BrowserSignin", .int (if value then 1 else 0)),
      ("SyncDisabled", .bool !value)]) ++
    chosen s.popups (fun value => [("DefaultPopupsSetting", .int (if value then 1 else 2))]) ++
    given (s.defaultSearch ≠ "") ([("DefaultSearchProviderEnabled", .bool true),
      ("DefaultSearchProviderName", .str s.defaultSearch)] ++
        given (s.defaultSearchUrl ≠ "")
          [("DefaultSearchProviderSearchURL", .str s.defaultSearchUrl)]) ++
    given (s.downloadDirectory ≠ "") [("DownloadDirectory", .str s.downloadDirectory),
      ("PromptForDownloadLocation", .bool false)] ++
    given (s.proxyMode ≠ .unset) (chromiumProxy s) ++
    given (!s.blockedSites.isEmpty) [("URLBlocklist", texts s.blockedSites)] ++
    given (!s.allowedSites.isEmpty) [("URLAllowlist", texts s.allowedSites)] ++
    given (s.firstRunPages = .hide) [("PromotionalTabsEnabled", .bool false)] ++
    given (s.defaultBrowserCheck = .hide) [("DefaultBrowserSettingEnabled", .bool false)]) s.extra

def bitwardenFirefoxId : String := "\x7b446900e4-71c2-419f-a6a7-df9c091e268b\x7d"

def bitwardenFirefoxXpi : String :=
  "https://addons.mozilla.org/firefox/downloads/latest/bitwarden-password-manager/latest.xpi"

def bitwardenChromeId : String := "nngceckbapebfimnlniiiahkandclblb"

section

omit [Runtime]

/-- The host of the console's address. -/
def consoleHost (consoleUrl : String) : String :=
  (Text.split ':'
    ((Text.split '/' (Text.removePrefix consoleUrl "https://")).headD "")).headD ""

def switchedOn (spec : Value) (name : String) : Except Raised Bool := do
  return ((← spec.get name).getD (.bool true)).truthy

def environment (vaultUrl : Value) : Value :=
  record [("environment", record [("base", vaultUrl)])]

def firefoxAddition (vaultUrl : Value) (host : String) (alone : Bool) : Value.Fields :=
  ("ExtensionSettings", record [(bitwardenFirefoxId,
      record [("installation_mode", .str "force_installed"),
        ("install_url", .str bitwardenFirefoxXpi)])]) ::
    ("3rdparty", record [("Extensions", record [(bitwardenFirefoxId, environment vaultUrl)])]) ::
    (given alone [("PasswordManagerEnabled", .bool false)] ++
      given (host ≠ "") [("Authentication", record [("SPNEGO", texts [host])])])

def chromiumAddition (vaultUrl : Value) (host : String) (alone : Bool) : Value.Fields :=
  ("ExtensionInstallForcelist",
      texts [bitwardenChromeId ++ ";https://clients2.google.com/service/update2/crx"]) ::
    ("3rdparty", record [("extensions", record [(bitwardenChromeId, environment vaultUrl)])]) ::
    (given alone [("PasswordManagerEnabled", .bool false)] ++
      given (host ≠ "") [("AuthServerAllowlist", .str host)])

/-- The extension installed and pointed at the vault, for both browsers. -/
def passwordManagerExtension (spec vaultUrl : Value) (consoleUrl : String) :
    Except Raised (Value.Fields × Value.Fields) := do
  if !(← switchedOn spec "browser_extension") || !vaultUrl.truthy then return ([], [])
  let host := consoleHost consoleUrl
  let alone ← switchedOn spec "disable_browser_managers"
  return (given (← switchedOn spec "firefox") (firefoxAddition vaultUrl host alone),
    given (← switchedOn spec "chromium") (chromiumAddition vaultUrl host alone))

/-- One kind of third-party settings written over what the browser has of that kind. -/
def mergeKind (kinds : Value.Fields) (entry : String × Value) : Except Raised Value.Fields := do
  match (Dict.get kinds entry.1).getD (.obj []) with
  | .obj old => return Dict.set kinds entry.1 (.obj (Dict.update old (← entry.2.spread)))
  | _ => .error .attributeError

/-- One policy added without dropping the entries it has already. -/
def mergePolicy (target : Value.Fields) (entry : String × Value) : Except Raised Value.Fields :=
  match entry.2, Dict.get target entry.1 with
  | .obj added, some (.obj current) =>
      if entry.1 = "3rdparty" then
        (fun kinds => Dict.set target entry.1 (.obj kinds)) <$> added.foldlM mergeKind current
      else .ok (Dict.set target entry.1 (.obj (Dict.update current added)))
  | .arr added, some (.arr current) =>
      .ok (Dict.set target entry.1 (.arr (current ++ added.filter (· ∉ current))))
  | value, _ => .ok (Dict.set target entry.1 value)

def mergeExtension (target : Value) (addition : Value.Fields) : Except Raised Value :=
  match target with
  | .obj fields => .obj <$> addition.foldlM mergePolicy fields
  | _ => .error .attributeError

/-- The extension's policies added to one browser's. -/
def addExtension (browser : Value) (name : String) (addition : Value.Fields) :
    Except Raised Value := do
  if addition.isEmpty then return browser
  let (browser, current) ← browser.setDefault name (.obj [])
  browser.setItem name (← mergeExtension current addition)

/-- The first of two values that says something. -/
def orElse (value default : Value) : Value := if value.truthy then value else default

/-- The browser half of the password manager; what is left of the setting is for the agent. -/
def foldManager (settings : Value.Fields) (browser : Value) (vaultUrl consoleUrl : String) :
    Except Raised (Value.Fields × Value × Bool) := do
  let manager := (Dict.get settings "password_manager").getD .null
  if !manager.truthy then return (settings, browser, false)
  let resolved := orElse ((← manager.get "vault_url").getD .null) (.str vaultUrl)
  let (forFirefox, forChromium) ← passwordManagerExtension manager resolved consoleUrl
  let browser ← addExtension browser "firefox" forFirefox
  let browser ← addExtension browser "chromium" forChromium
  let desktop := ((← manager.get "desktop_app").getD .null).truthy
  return (Dict.set settings "password_manager"
    (record [("vault_url", resolved), ("desktop_app", .bool desktop)]), browser,
    !forFirefox.isEmpty || !forChromium.isEmpty)

end

/-- One browser's typed settings as native policy, over what the browser has already. -/
def foldBrowser (key name : String) (translate : Settings → Value.Fields)
    (state : Value.Fields × Value × Bool) : Except Raised (Value.Fields × Value × Bool) := do
  let (settings, browser, changed) := state
  let raw := (Dict.get settings key).getD .null
  let settings := Dict.erase settings key
  if !raw.truthy then return (settings, browser, changed)
  let some typed := (parseFields raw).bind Settings.validate | .error .valueError
  let native := translate typed
  if native.isEmpty then return (settings, browser, changed)
  let current ← ((← browser.get name).getD (.obj [])).spread
  return (settings, ← browser.setItem name (.obj (Dict.update current native)), true)

/-- The typed settings of a merged document turned into native browser policy, on top of what is
there already. -/
def fold (settings : Value.Fields) (vaultUrl consoleUrl : String) : Except Raised Value.Fields := do
  let browser := orElse ((Dict.get settings "browser").getD .null) (.obj [])
  let state ← foldManager settings browser vaultUrl consoleUrl
  let state ← foldBrowser "firefox_policy" "firefox" firefox state
  let (settings, browser, changed) ← foldBrowser "chromium_policy" "chromium" chromium state
  return if changed then Dict.set settings "browser" browser else settings

end OpenDirectory.Browser
