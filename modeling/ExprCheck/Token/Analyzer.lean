import ExprCheck.Notice
import ExprCheck.Token.Scanner

/-!
Scanning with a tally and notices. The tokens are those of a plain scan.
-/

namespace ExprCheck

structure Analyzer where
  settings : ScanSettings
  /-- The tally of the last scan. -/
  tally : Tally := {}
deriving DecidableEq, Repr

namespace Analyzer

/-- Takes other settings for the scans to come. -/
def configure (a : Analyzer) (settings : ScanSettings) : Analyzer :=
  { a with settings }

/-- What is said about a token. -/
def tokenNotices (settings : ScanSettings) (t : Token) : List Notice :=
  (if settings.traceTokens then [.scanned t] else [])
    ++ (if t.category = .invalid then [.invalidCharacter t] else [])
    ++ (if t.isLong then [.longInteger t] else [])

/-- The tokens of a text and what is said about them. -/
def scan (a : Analyzer) (text : String) : (List Token × List Notice) × Analyzer :=
  let (tokens, scanner) := (Scanner.ofText text).run
  let tally := Tally.ofTokens a.settings.detailed tokens scanner.blanks
  let notices :=
    .scanning (Text.byteLength text.toList) a.settings.detailed
      :: tokens.flatMap (tokenNotices a.settings)
      ++ [.scanComplete tally, .streamCreated tokens.length]
  ((tokens, notices), { a with tally := tally })

end Analyzer
end ExprCheck
