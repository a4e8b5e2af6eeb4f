import CodeAtlas.Url.Reader

namespace CodeAtlas.Repository

def allowedHosts : List String := ["github.com", "www.github.com"]

def unknownName : String := "unknown"

def addressSuffix : String := ".git"

def parts (url : Url) : List Url.Segment := url.path.filter fun segment => !segment.isEmpty

def isAllowedHost : Option Url.Host → Bool
  | some (.name text) => allowedHosts.any fun host => text == host.toList
  | _ => false

def isAddress (s : String) : Bool :=
  (Url.read? s).any fun url => isAllowedHost url.host && 2 ≤ (parts url).length

def bareName (segment : Url.Segment) : Url.Segment :=
  (Text.dropBack? addressSuffix.toList segment).getD segment

def name (s : String) : String :=
  match Url.read? s with
  | none => unknownName
  | some url =>
    match (parts url).length, (parts url).getLast? with
    | _ + 2, some last => if (bareName last).isEmpty then unknownName else String.ofList (bareName last)
    | _, _ => unknownName

end CodeAtlas.Repository
