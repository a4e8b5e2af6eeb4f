import CodeAtlas.Config
import CodeAtlas.Json

namespace CodeAtlas

def Json.optionalText? : Json → Option (Option String)
  | .null => some none
  | value => value.text?.map some

def Json.settings : SettingReader Json where
  fields? := Json.optionalFields?
  text? := Json.text?
  optionalText? := Json.optionalText?
  count? := Json.natural?
  flag? := Json.boolean?
  variant? := Json.variant?

def Config.ofJson? (text : String) : Option Config := (Json.read? text).bind Json.settings.config?

end CodeAtlas
