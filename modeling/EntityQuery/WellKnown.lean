/-!
# Well-known attributes

Attributes that every entity has.
-/

namespace EntityQuery.WellKnown

def createdOn : String := "createdon"

def modifiedOn : String := "modifiedon"

def stateCode : String := "statecode"

def activeState : Int32 := 0

def inactiveState : Int32 := 1

end EntityQuery.WellKnown
