import Outfitter.Api.Target

/-!
Routes: what a path leads to, and by which methods.
-/

namespace Outfitter.Api

open Text

inductive Route where
  | home
  | root
  | sessions
  | session (id : String)
  | message (id : String)
  | reply
  | extraction
  | image
  | queryPlan
  | health
  deriving DecidableEq

namespace Route

/-- The methods by which a route may be taken. -/
def methods : Route → List String
  | home | root | queryPlan | health => ["GET"]
  | session _ => ["GET", "DELETE"]
  | sessions | message _ | reply | extraction | image => ["POST"]

/-- The routes with a path of their own. -/
def fixed : List (String × Route) :=
  [("/", home), ("/api/", root), ("/api/chat/sessions", sessions), ("/api/chat/reply", reply),
    ("/api/filters/extract", extraction), ("/api/filters/image", image),
    ("/api/products/query-plan", queryPlan), ("/api/health", health)]

/-- The path without a line end at its end. -/
def withoutLineEnd (path : List Char) : List Char :=
  if path.getLast? = some '\n' then path.dropLast else path

/-- The segments of a path. -/
def segments (path : List Char) : List String :=
  (splitAt '/' path).map String.ofList

/-- The route of a path about a session. -/
def ofSessionPath? (path : List Char) : Option Route :=
  match segments path, segments (withoutLineEnd path) with
  | ["", "api", "chat", "sessions", id], _ => if id.isEmpty then none else some (session id)
  | _, ["", "api", "chat", "sessions", id, "message"] =>
    if id.isEmpty then none else some (message id)
  | _, _ => none

/-- The route of a path. A line end at the end of a path is passed over, unless it belongs to the
identifier of a session. -/
def ofPath? (path : List Char) : Option Route :=
  (fixed.lookup (String.ofList (withoutLineEnd path))).or (ofSessionPath? path)

/-- The path with a slash at its end, or without any if it has one. -/
def otherSlash (path : List Char) : List Char :=
  if path.getLast? = some '/' then (path.reverse.dropWhile (· = '/')).reverse else path ++ ['/']

/-- The path with the other ending that leads somewhere, for one that leads nowhere. -/
def detour? (path : List Char) : Option (List Char) :=
  if path = ['/'] then none
  else if (ofPath? (otherSlash path)).isSome then some (otherSlash path)
  else none

end Route

end Outfitter.Api
