import Erc8415.Console.View

/-! # The pages of a token

The overview and the timeline as HTML. The overview renders the tradeable
position and the confirmed holder as two rows, and says whether the instant is
final apart from whether a gap is open.
-/

namespace Erc8415

def escapeChar : Char → List Char
  | '&' => ['&', 'a', 'm', 'p', ';']
  | '<' => ['&', 'l', 't', ';']
  | '>' => ['&', 'g', 't', ';']
  | '"' => ['&', 'q', 'u', 'o', 't', ';']
  | '\'' => ['&', '#', '3', '9', ';']
  | c => [c]

def escape (value : String) : String := String.ofList (value.toList.flatMap escapeChar)

def row (label value : String) : String :=
  "<tr><th scope=\"row\">" ++ escape label ++ "</th><td>" ++ escape value ++ "</td></tr>"

/-! ## The overview -/

def coverageText : Coverage → String
  | .covered => "covered by the projection"
  | .notCovered => "the projection does not cover this instant"
  | .noProjection => "this token has no projection"

def renderGap : Option SettlementRow → String
  | none => row "Change in flight" "none"
  | some gap =>
      String.join [
        row "Change in flight" s!"settlement {gap.settlementId}",
        row "Gap opened at" gap.openedAt,
        row "Gap deadline" (if gap.expired then s!"{gap.deadline} (passed)" else gap.deadline),
        row "Expected holder" gap.expectedHolder]

def renderOverview (view : TokenOverview) : String :=
  "<!doctype html>\n<html lang=\"en\"><head><meta charset=\"utf-8\">\n<title>Token " ++
  escape view.tokenId ++ " — ERC-8415 projection</title>\n</head><body>\n<h1>Token " ++
  escape view.tokenId ++ "</h1>\n<p>Register " ++ escape view.registerId ++
  ", verification profile " ++ escape view.verificationProfile ++ ".</p>\n\n<h2>At instant " ++
  escape view.instant ++ "</h2>\n<table>\n" ++
  row "Tradeable position (ERC-721 owner)" (view.tradeablePosition.getD "not read") ++ "\n" ++
  row "Confirmed holder (register)" (view.confirmedHolder.getD "—") ++ "\n" ++
  row "Coverage" (coverageText view.coverage) ++ "\n" ++
  row "Can a later admission change the confirmed holder?"
    (if view.final then "no, this instant is final" else "yes, this instant is provisional") ++
  "\n" ++ renderGap view.openGap ++ "\n" ++ row "Admitted entries" (toString view.entryCount) ++
  "\n</table>\n\n<p>The tradeable position and the confirmed holder are separate facts. They\n" ++
  "agree at rest and diverge while the register catches up; neither is derived\n" ++
  "from the other.</p>\n\n" ++
  "<p>Whether an instant is final does not depend on whether a gap is open, and\n" ++
  "closing a gap does not make any instant final.</p>\n</body></html>"

/-! ## The timeline -/

def renderSection (item : TimelineRow) : String :=
  "<section>\n<h2>" ++ escape item.at ++ " — " ++ escape item.summary ++ "</h2>\n<table>" ++
  String.join (item.detail.map fun field => row field.1 field.2) ++ "</table>\n</section>"

def renderTimeline (tokenId : String) (rows : List TimelineRow) : String :=
  "<!doctype html>\n<html lang=\"en\"><head><meta charset=\"utf-8\">\n<title>Token " ++
  escape tokenId ++ " — audit timeline</title>\n</head><body>\n<h1>Audit timeline for token " ++
  escape tokenId ++ "</h1>\n" ++
  (if rows.length = 0 then "<p>Nothing recorded for this token.</p>" else "") ++ "\n" ++
  "\n".intercalate (rows.map renderSection) ++
  "\n<p>Entries carry a record commitment and a registry reference. The register's\n" ++
  "contents are not shown here: the chain carries a hash and a locator, and\n" ++
  "reading the register itself requires entitlement this console does not have.</p>\n" ++
  "</body></html>"

end Erc8415
