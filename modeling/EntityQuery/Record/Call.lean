import EntityQuery.Record

/-!
# Calls on records

The calls that fill a record, as data.  No such call fails.
-/

namespace EntityQuery

inductive RecordCall
  | withAttribute (name : String) (value : AttributeValue)
  | withAliased (aliasName entity attr : String) (value : AttributeValue)
  | withFormatted (name text : String)

namespace RecordCall

def apply : RecordCall → Record → Record
  | withAttribute name value, record => record.withAttribute name value
  | withAliased aliasName entity attr value, record =>
      record.withAliased aliasName entity attr value
  | withFormatted name text, record => record.withFormatted name text

def applyEach (calls : List RecordCall) (record : Record) : Record :=
  calls.foldl (fun record call => call.apply record) record

end RecordCall

end EntityQuery
