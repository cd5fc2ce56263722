import CxxUtil.Foundations.PegParser
import CxxUtil.Version.Core

/-! # `VersionGrammar` and `Version::parse`

The rules of `src/version.cpp`. `uint_` fails on a value above the maximum of `unsigned`; every rule
carries an error handler that answers an unmet expectation by failing. The rules below `start` write
into attributes that are empty when they begin, so they return them; `start` writes into the tuple
it is given and leaves there what it wrote. -/
namespace CxxUtil.Version
open Foundations
set_option autoImplicit false

namespace VersionGrammar
open Foundations.Parser

def fitsUnsigned (n : ℕ) : Option UInt32 :=
  if n < UInt32.size then some (UInt32.ofNat n) else none

def uint_ : Parser UInt32 := number fitsUnsigned

/-- `char_("0-9A-Za-z-")`. -/
def identifierChar (c : Char) : Bool :=
  c.isDigit || c.isUpper || c.isLower || c == '-'

def identifier : Parser (List Char) := onErrorFail (many1 identifierChar)

def numbers : Parser (List UInt32) := onErrorFail (list uint_ '.')

/-- `uint_ | identifier`. -/
def preReleaseIdentifier : Parser PreReleaseIdentifier :=
  alt (map .unsigned uint_) (map .text identifier)

def preRelease : Parser (List PreReleaseIdentifier) :=
  onErrorFail (expect (lit '-') (list preReleaseIdentifier '.'))

def buildMetadata : Parser (List (List Char)) :=
  onErrorFail (expect (lit '+') (list identifier '.'))

def start : Rule DataType :=
  Rule.onErrorFail
    ((((Rule.into (optional (lit 'v')) fun _ d => d).expect
      (Rule.into numbers fun ns d => { d with numbers := ns })).expect
      (Rule.into (optional preRelease) fun p d => { d with preRelease := p })).expect
      (Rule.into (optional buildMetadata) fun b d => { d with buildMetadata := b }))

end VersionGrammar

inductive Outcome
  | returned (b : Bool)
  | expectationFailure
  deriving DecidableEq, Repr

/-- `Version::parse`: the version afterwards and how the call ends. -/
def parse (v : Version) (s : List Char) : Version × Outcome :=
  let v : Version := { v with mData := ⟨[], none, none⟩ }
  match (VersionGrammar.start.seq Rule.eoi) v.mData s with
  | (mData, .matched _ _) => ({ v with mData }, .returned true)
  | (mData, .failed) => ({ v with mData }, .returned false)
  | (mData, .threw) => ({ v with mData }, .expectationFailure)

example : (parse .empty ['v', '1', '.', '9', '-', 'a', '.', '2', '+', '0', '1']).1.mData =
    ⟨[1, 9], some [.text ['a'], .unsigned 2], some [['0', '1']]⟩ := by decide

end CxxUtil.Version
