import ContextLayer.Connections
import ContextLayer.Trailers
import ContextLayer.Lib.Regex

/-!
# What the ledger stores of a text

Text the server has derived loses everything that looks like a value of the data: what is quoted, mail
addresses, identifiers, numbers. Text that a person wrote keeps its words, and only reports what the same
patterns find in it.
-/

namespace ContextLayer.Scrub

open Text Regex

def unit (u : UInt16) : Regex UInt16 := .char fun v => v == u

def digit : Regex UInt16 := .char isDigit

def wordUnit : Regex UInt16 := .char isWord

/-! ### The patterns -/

def quotedBy (quote : UInt16) : Regex UInt16 :=
  seq (unit quote) (seq (star (.char fun v => v != quote)) (unit quote))

/-- `QUOTED_RE`. -/
def quotedRe : Regex UInt16 := alt (quotedBy 0x22) (quotedBy 0x27)

/-- `[\w.+-]`. -/
def isMailbox (u : UInt16) : Bool := isWord u || u == 0x2E || u == 0x2B || u == 0x2D

/-- `[\w-]`. -/
def isHost (u : UInt16) : Bool := isWord u || u == 0x2D

/-- `[\w.-]`. -/
def isDomain (u : UInt16) : Bool := isHost u || u == 0x2E

/-- `EMAIL_RE`. -/
def emailRe : Regex UInt16 :=
  seq (plus (.char isMailbox)) (seq (unit 0x40) (seq (plus (.char isHost))
    (seq (unit 0x2E) (plus (.char isDomain)))))

def hexRun (n : Nat) : Regex UInt16 := times (.char isHexDigit) n

/-- `UUID_RE`, in either case. -/
def uuidRe : Regex UInt16 :=
  seq (hexRun 8) (seq (unit 0x2D) (seq (hexRun 4) (seq (unit 0x2D) (seq (hexRun 4)
    (seq (unit 0x2D) (seq (hexRun 4) (seq (unit 0x2D) (hexRun 12))))))))

/-- `DIGIT_RUN_RE`. -/
def digitRunRe : Regex UInt16 :=
  bounded (seq (star wordUnit) (seq (times digit 4) (seq (star digit) (star wordUnit))))

/-- `[.,]`. -/
def isPoint (u : UInt16) : Bool := u == 0x2E || u == 0x2C

/-- `NUMBER_RE`. -/
def numberRe : Regex UInt16 := bounded (seq (plus digit) (star (seq (.char isPoint) (plus digit))))

/-- `\s+`. -/
def spacesRe : Regex UInt16 := plus (.char isJsSpace)

/-! ### Flags -/

inductive ValueFlag where
  | email
  | uuid
  | digitRun
  | number
  | quoted
  | truncated
  deriving DecidableEq

def valuePatterns : List (ValueFlag × Regex UInt16) :=
  [(.quoted, quotedRe), (.email, emailRe), (.uuid, uuidRe), (.digitRun, digitRunRe), (.number, numberRe)]

def flagValues (text : Text) : List ValueFlag :=
  (valuePatterns.filter fun p => test isWord p.2 text).map Prod.fst

/-! ### The scrub -/

/-- `text.replace(re, " ")`. -/
def blankOut (re : Regex UInt16) (text : Text) : Text := replace isWord re (fun _ => [0x20]) text

/-- The scrub ahead of its `.slice`. -/
def withoutValues (text : Text) : Text :=
  Connections.trim (blankOut spacesRe (blankOut numberRe (blankOut digitRunRe (blankOut uuidRe (blankOut emailRe
    (blankOut quotedRe text))))))

def scrubText (text : Text) (max : Nat) : Text := (withoutValues text).take max

/-! ### Storage -/

/-- `AUTHORED_KINDS`. -/
def authoredKinds : List Text := [js "enrichment_request", js "human_filed", js "result_disputed"]

def boundText (text : Text) (max : Nat) : Text × Bool :=
  if text.length ≤ max then (text, false) else (text.take max, true)

def storeText (kind text : Text) (max : Nat) : Text × List ValueFlag :=
  if kind ∉ authoredKinds then (scrubText text max, [])
  else
    let bounded := boundText text max
    (bounded.1, flagValues bounded.1 ++ if bounded.2 then [.truncated] else [])

end ContextLayer.Scrub
