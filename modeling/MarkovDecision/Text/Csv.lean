/-!
# Comma-separated values

A record is a line of fields with commas between them.  A field that holds a comma, a quote or a
line break stands between quotes, and quotes inside it are doubled; so does an empty field that is
alone in its record, which would otherwise be an empty line.
-/

namespace MarkovDecision

namespace Csv

def needsQuotes (field : String) : Bool :=
  field.toList.any fun c => c == ',' || c == '"' || c == '\n' || c == '\r'

def quotedField (field : String) : String :=
  String.ofList <| '"' :: (field.toList.flatMap fun c =>
    if c = '"' then ['"', '"'] else [c]) ++ ['"']

def fieldText (field : String) : String :=
  if needsQuotes field then quotedField field else field

def recordText (fields : List String) : String :=
  match fields with
  | [""] => "\"\"\n"
  | fields => ",".intercalate (fields.map fieldText) ++ "\n"

def text (records : List (List String)) : String :=
  String.join (records.map recordText)

end Csv

end MarkovDecision
