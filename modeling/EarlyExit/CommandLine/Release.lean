import EarlyExit.Text.Quoted

/-!
# Releases

What the program says of itself, as text or as a record.
-/

namespace EarlyExit.CommandLine

structure Release where
  version : String := "0.1.0"
  buildDate : String := "unknown"
  commit : String := "unknown"
  /-- The compiler that built it, and the machine it was built for. -/
  compiler : String := "unknown"
  platform : String := "unknown"
  arch : String := "unknown"

namespace Release

def text (r : Release) (tool : String) : String :=
  tool ++ " v" ++ r.version ++ "\nBuild Date: " ++ r.buildDate ++ "\n" ++
    (if r.commit = "unknown" || r.commit.isEmpty then "" else "Commit: " ++ r.commit ++ "\n") ++
    "Go Version: " ++ r.compiler ++ "\nPlatform: " ++ r.platform ++ "/" ++ r.arch ++ "\n"

/-- A character of a record's text; marks that matter in web pages are escaped too. -/
def escapeChar (c : Char) : String :=
  match c with
  | '"' => "\\\""
  | '\\' => "\\\\"
  | '\x08' => "\\b"
  | '\x0c' => "\\f"
  | '\n' => "\\n"
  | '\r' => "\\r"
  | '\t' => "\\t"
  | c =>
      if c < ' ' || "<>&\u2028\u2029".toList.contains c then "\\u" ++ Text.hex 4 c.toNat
      else String.singleton c

def quoted (s : String) : String :=
  "\"" ++ String.join (s.toList.map escapeChar) ++ "\""

def record (r : Release) (tool : String) : String :=
  let fields := [("version", r.version), ("build_date", r.buildDate), ("commit_sha", r.commit),
    ("go_version", r.compiler), ("platform", r.platform), ("arch", r.arch)]
  let line (x : String × String) : String := "    " ++ quoted x.1 ++ ": " ++ quoted x.2
  "\x7b\n  \"tool\": " ++ quoted tool ++ ",\n  \"version_info\": \x7b\n" ++
    ",\n".intercalate (fields.map line) ++ "\n  \x7d\n\x7d\n"

end Release

end EarlyExit.CommandLine
