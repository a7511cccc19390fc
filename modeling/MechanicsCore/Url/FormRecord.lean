import MechanicsCore.Library.OrdMap
import MechanicsCore.Url.SearchParams

/-! The record codec of `mechanics:form-urlencoded`, and the parser behind the
`URLSearchParams` constructor. Both take a leading `?` off what they parse. -/
namespace MechanicsCore.Url
open MechanicsCore.Library Text

/-- `strip_prefix('?')`, or the text as it is. -/
def withoutQuestion : Text → Text
  | '?'::rest => rest
  | input => input

def parseParamsString (input : Text) : List ParamPair := FormUrlencoded.parse (utf8 (withoutQuestion input))

/-- The record argument: the entries of an object, as they are inserted in the ordered map. -/
def parseFormRecordArg (entries : List (Text × Text)) : OrdMap Text Text := .ofEntries entries

def formUrlencodeEncode (record : OrdMap Text Text) : Text := record.entries.foldl FormUrlencoded.appendPair []

def formUrlencodeDecode (params : Text) : OrdMap Text Text :=
  (FormUrlencoded.parse (utf8 (withoutQuestion params))).foldl (fun record pair => record.insert pair.1 pair.2) .empty

theorem withoutQuestion_encodePairs (pairs : List ParamPair) : withoutQuestion (encodePairs pairs) = encodePairs pairs := by
  have absent := FormUrlencoded.question_not_mem pairs
  change '?' ∉ encodePairs pairs at absent
  cases text : encodePairs pairs with
  | nil => rfl
  | cons c rest =>
    rw [text,List.mem_cons,not_or] at absent
    unfold withoutQuestion
    split
    · rename_i same
      exact absurd (List.cons.inj same).1.symm absent.1
    · rfl

theorem parseParamsString_encodePairs (pairs : List ParamPair) : parseParamsString (encodePairs pairs) = pairs := by
  rw [parseParamsString,withoutQuestion_encodePairs]
  exact FormUrlencoded.parse_extendPairs pairs

/-- Records and lists of pairs come back as they were encoded, and a record's encoding does
not depend on the order its entries came in. -/
theorem form_encoding_round_trips :
    (∀ record, formUrlencodeDecode (formUrlencodeEncode record) = record) ∧
    (∀ entries reordered, reordered.Perm entries → (entries.map Prod.fst).Nodup →
      formUrlencodeEncode (parseFormRecordArg reordered) = formUrlencodeEncode (parseFormRecordArg entries)) ∧
    ∀ pairs, parseParamsString (encodePairs pairs) = pairs := by
  refine ⟨fun record => ?_,fun entries reordered permuted distinct => ?_,parseParamsString_encodePairs⟩
  · have parsed := parseParamsString_encodePairs record.entries
    change OrdMap.ofEntries (parseParamsString (encodePairs record.entries)) = record
    rw [parsed,OrdMap.ofEntries_entries]
  · exact congrArg formUrlencodeEncode (OrdMap.ofEntries_perm permuted.symm distinct).symm

theorem form_encoding_round_trips_at_question :
    formUrlencodeEncode (parseFormRecordArg [("b","="),("?a","1 2")]) = "%3Fa=1+2&b=%3D" ∧
      formUrlencodeEncode (parseFormRecordArg [("?a","1 2"),("b","=")]) = "%3Fa=1+2&b=%3D" := by
  have first : formUrlencodeEncode (parseFormRecordArg [("b","="),("?a","1 2")]) = "%3Fa=1+2&b=%3D" := by decide
  refine ⟨first,?_⟩
  rw [form_encoding_round_trips.2.1 [("b","="),("?a","1 2")] _ (List.Perm.swap _ _ _) (by decide)]
  exact first

end MechanicsCore.Url
