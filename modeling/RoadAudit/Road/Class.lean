/-! # Road classes

The classes that a way of the map can have in the road network, the names they are written with,
and the class that the tags of a way give it. -/

namespace RoadAudit

inductive RoadClass where
  | undefined | road | motorway | motorwayLink | trunk | trunkLink | primary | primaryLink
  | secondary | secondaryLink | tertiary | tertiaryLink | unclassified | residential
  | livingStreet | pedestrian | service | serviceDriveway | serviceAlley | serviceParkingAisle
  | track | footway | cycleway | path | raceway | steps | platform | ferry
deriving DecidableEq, Repr, Inhabited

namespace RoadClass

def all : List RoadClass :=
  [undefined, road, motorway, motorwayLink, trunk, trunkLink, primary, primaryLink, secondary,
    secondaryLink, tertiary, tertiaryLink, unclassified, residential, livingStreet, pedestrian,
    service, serviceDriveway, serviceAlley, serviceParkingAisle, track, footway, cycleway, path,
    raceway, steps, platform, ferry]

/-- The number a class is stored as: its place in `all`. -/
def code (c : RoadClass) : Nat := c.ctorIdx

/-- The class with a code; a code that is not in use means no road. -/
def ofCode (n : Nat) : RoadClass := (all[n]?).getD undefined

theorem mem_all (c : RoadClass) : c ∈ all := by cases c <;> decide

theorem code_lt (c : RoadClass) : c.code < 28 := by cases c <;> decide

@[simp] theorem ofCode_code (c : RoadClass) : ofCode c.code = c := by cases c <;> rfl

/-- The name of a class in settings and reports. -/
def name : RoadClass → String
  | undefined => "undefined"
  | road => "road"
  | motorway => "motorway"
  | motorwayLink => "motorway_link"
  | trunk => "trunk"
  | trunkLink => "trunk_link"
  | primary => "primary"
  | primaryLink => "primary_link"
  | secondary => "secondary"
  | secondaryLink => "secondary_link"
  | tertiary => "tertiary"
  | tertiaryLink => "tertiary_link"
  | unclassified => "unclassified"
  | residential => "residential"
  | livingStreet => "living_street"
  | pedestrian => "pedestrian"
  | service => "service"
  | serviceDriveway => "service_driveway"
  | serviceAlley => "service_alley"
  | serviceParkingAisle => "service_parking_aisle"
  | track => "track"
  | footway => "footway"
  | cycleway => "cycleway"
  | path => "path"
  | raceway => "raceway"
  | steps => "steps"
  | platform => "platform"
  | ferry => "ferry"

def ofName? (s : String) : Option RoadClass := all.find? fun c => c.name == s

theorem ofName?_name (c : RoadClass) : ofName? c.name = some c := by cases c <;> decide

/-- The class that a `highway` value gives, a service road refined by its `service` value. -/
def ofHighway (highway : String) (service : Option String) : RoadClass :=
  match highway with
  | "road" => road
  | "motorway" => motorway
  | "motorway_link" => motorwayLink
  | "trunk" => trunk
  | "trunk_link" => trunkLink
  | "primary" => primary
  | "primary_link" => primaryLink
  | "secondary" => secondary
  | "secondary_link" => secondaryLink
  | "tertiary" => tertiary
  | "tertiary_link" => tertiaryLink
  | "unclassified" => unclassified
  | "residential" => residential
  | "living_street" => livingStreet
  | "pedestrian" => pedestrian
  | "service" =>
    match service with
    | some "driveway" => serviceDriveway
    | some "alley" => serviceAlley
    | some "parking_aisle" => serviceParkingAisle
    | _ => RoadClass.service
  | "track" => track
  | "footway" => footway
  | "cycleway" => cycleway
  | "path" => path
  | "raceway" => raceway
  | "steps" => steps
  | "platform" => platform
  | _ => undefined

def ofTags (tag : String → Option String) : RoadClass :=
  match tag "highway" with
  | some highway => ofHighway highway (tag "service")
  | none =>
    if tag "railway" = some "platform" ∨ tag "public_transport" = some "platform" then platform
    else if tag "route" = some "ferry" then ferry
    else undefined

/-- Roads that end at a house or a parking space as a rule. -/
def isDrivewayLike : RoadClass → Bool
  | serviceDriveway | serviceParkingAisle => true
  | _ => false

/-- Paths for pedestrians, where a short way round makes a gap harmless. -/
def isPedestrianPath : RoadClass → Bool
  | footway | path | steps => true
  | _ => false

theorem isDrivewayLike_of_isPedestrianPath {c : RoadClass} (h : c.isPedestrianPath = true) :
    c.isDrivewayLike = false := by
  cases c <;> first | rfl | cases h

end RoadClass

end RoadAudit
