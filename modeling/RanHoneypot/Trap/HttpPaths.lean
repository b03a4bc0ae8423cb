import RanHoneypot.Data.GoPath

/-!
# Exploit paths

`matchExploitPath` of `httppaths.go` tells whether a request asks for a known exploit or recon path. The
path is brought to a normal form first: lower case, percent decoding up to three times, and no
backslashes or path parameters.
-/

namespace RanHoneypot.Trap

open GoText Utf8

def maxHTTPBody : ℕ := 16 * 2 ^ 10

/-- Longer paths are suspicious by definition. -/
def maxHTTPPath : ℕ := maxHTTPBody

/-! ## The lists -/

/-- Cleaned paths that no legitimate visitor asks for. -/
def exploitPathsExact : List Text :=
  ["/.env", "/.env.local", "/.env.production", "/.env.dev", "/.env.bak", "/.env.example", "/env",
   "/.envrc", "/.htpasswd", "/.htaccess", "/.ds_store", "/.npmrc", "/.dockercfg",
   "/.bash_history", "/id_rsa", "/id_dsa", "/wp-config.php", "/wp-config.php.bak",
   "/wp-config.php.old", "/wp-config.php~", "/wp-config.txt", "/configuration.php",
   "/config.php", "/config.json", "/config.yml", "/config.yaml", "/settings.py", "/web.config",
   "/appsettings.json", "/application.properties", "/application.yml", "/backup.sql",
   "/backup.zip", "/dump.sql", "/database.sql", "/db.sql", "/site.tar.gz", "/backup.tar.gz",
   "/phpinfo.php", "/info.php", "/test.php", "/shell.php", "/cmd.php", "/c99.php", "/r57.php",
   "/wso.php", "/xmlrpc.php", "/server-status", "/server-info", "/login.action",
   "/invoker/jmxinvokerservlet", "/owa/auth.owa", "/v2/_catalog", "/containers/json", "/script",
   "/debug/pprof", "/_profiler", "/telescope"].map ofText

/-- Admin endpoints, metadata directories and exploit targets. They are in lower case already, so that
`init` changes nothing. -/
def exploitPathPrefixes : List Text :=
  ["/.git/", "/.svn/", "/.hg/", "/.aws/", "/.ssh/", "/.docker/", "/.kube/", "/.vscode/",
   "/actuator", "/jolokia", "/cgi-bin/", "/cgi/", "/phpmyadmin", "/pma/", "/myadmin",
   "/manager/html", "/host-manager/", "/jmx-console", "/web-console", "/invoker/",
   "/vendor/phpunit/", "/_ignition/", "/_debug/", "/solr/", "/jenkins/script", "/scripttext",
   "/console/", "/h2-console", "/boaform/", "/hnap1", "/ecp/", "/owa/auth", "/autodiscover/",
   "/remote/login", "/+cscoe+/", "/api/jsonws/", "/axis2/", "/struts", "/druid/", "/nacos/",
   "/geoserver/", "/wp-content/plugins/", "/wp-json/wp/v2/users", "/wp-admin/admin-ajax.php",
   "/bin/", "/etc/", "/proc/", "/mgmt/tm/", "/api/v1/pods", "/api/v1/secrets",
   "/stalker_portal/", "/setup.cgi", "/goform/", "/apply.cgi", "/command.php"].map ofText

def exploitPathSegments : List Text :=
  [".git", ".env", "win.ini", "boot.ini", "eval-stdin.php"].map ofText

def exploitPathSubstrings : List Text := ["/etc/passwd", "/etc/shadow", "/proc/self/"].map ofText

/-! ## Matching -/

/-- The decoding loop, which stops at a text that cannot be decoded. -/
def decodeLoop : ℕ → Text → Text
  | 0, p => p
  | rounds + 1, p =>
    if p.contains (ch '%') then
      match pathUnescape p with
      | none => p
      | some dec => if dec = p then p else decodeLoop rounds dec
    else p

/-- Drops path parameters from every segment. -/
def dropParameters (p : Text) : Text :=
  if p.contains (ch ';') then
    join [ch '/'] ((p.splitOn (ch '/')).map fun seg ↦ seg.takeWhile (· ≠ ch ';'))
  else p

def normalizeHTTPPath (lower : LowerTable) (p : Text) : Text :=
  dropParameters ((decodeLoop 3 (toLower lower p)).map fun b ↦ if b = ch '\\' then ch '/' else b)

/-- One entry of the list of prefixes. A directory also matches without the slash at its end. -/
def matchesPrefix (p pre : Text) : Bool :=
  if pre.getLast? = some (ch '/') then pre.isPrefixOf p || p ++ [ch '/'] == pre
  else p == pre || (pre ++ [ch '/']).isPrefixOf p

/-- The lists, for a cleaned path. -/
def matchCleaned (p : Text) : Bool :=
  exploitPathsExact.contains p ||
    (p.splitOn (ch '/')).any (fun seg ↦
      exploitPathSegments.contains seg || (ofText ".env.").isPrefixOf seg) ||
    exploitPathSubstrings.any (fun s ↦ decide (s <:+: p)) ||
    exploitPathPrefixes.any (matchesPrefix p)

/-- What is left of `matchExploitPath` for a path in normal form. Traversal is looked for before
cleaning, which would resolve it away. -/
def matchNormalized (p : Text) : Bool :=
  let p := if p.head? = some (ch '/') then p else ch '/' :: p
  (p.splitOn (ch '/')).any (· == ofText "..") || matchCleaned (clean p)

def matchExploitPath (lower : LowerTable) (p : Text) : Bool :=
  if maxHTTPPath < p.length then true else matchNormalized (normalizeHTTPPath lower p)

end RanHoneypot.Trap
