/-!
The vocabulary of clothes: for each dimension of the catalog its tokens, and the words and phrases by
which shoppers name them. The order of the tokens and of their phrases is the order in which they are
shown.
-/

namespace Outfitter.Taxonomy

/-- Tokens with the phrases that name them. -/
abbrev Vocabulary :=
  List (String × List String)

namespace Vocabulary

def colors : Vocabulary :=
  [("black", ["black"]), ("white", ["white"]), ("ivory", ["ivory"]), ("cream", ["cream"]),
    ("beige", ["beige"]), ("tan", ["tan"]), ("brown", ["brown"]), ("grey", ["grey", "gray"]),
    ("charcoal", ["charcoal"]), ("navy", ["navy"]), ("blue", ["blue"]),
    ("light-blue", ["light-blue", "light blue"]), ("teal", ["teal"]), ("green", ["green"]),
    ("olive", ["olive"]), ("red", ["red"]), ("burgundy", ["burgundy"]), ("pink", ["pink"]),
    ("blush", ["blush"]), ("rose", ["rose"]), ("purple", ["purple"]), ("yellow", ["yellow"]),
    ("mustard", ["mustard"]), ("orange", ["orange"]), ("coral", ["coral"]), ("gold", ["gold"]),
    ("silver", ["silver"]), ("metallic", ["metallic"]),
    ("pastel-pink", ["pastel-pink", "pastel pink"]),
    ("pastel-blue", ["pastel-blue", "pastel blue"]),
    ("pastel-green", ["pastel-green", "pastel green"]),
    ("pastel-purple", ["pastel-purple", "pastel purple"]),
    ("pastel-yellow", ["pastel-yellow", "pastel yellow"]), ("pastel", ["pastel", "pastels"])]

def categories : Vocabulary :=
  [("dresses", ["dress", "dresses", "gown", "maxi", "midi", "mini", "slip dress", "evening gown"]),
    ("tops", ["top", "tops", "shirt", "blouse", "tee", "t-shirt", "sweater", "hoodie", "camisole",
      "tank", "polo"]),
    ("pants", ["pants", "trousers", "jeans", "denim", "chinos", "slacks", "leggings"]),
    ("skirts", ["skirt", "skirts"]),
    ("shoes", ["shoes", "heels", "pumps", "sandals", "sneakers", "boots", "booties", "flats"]),
    ("accessories", ["accessory", "accessories", "bag", "belt", "hat", "jewelry", "earrings",
      "necklace", "bracelet", "scarf", "clutch"]),
    ("outerwear", ["jacket", "coat", "blazer", "cardigan", "trench", "parka"])]

def occasion : Vocabulary :=
  [("wedding", ["wedding", "weddings"]), ("bridesmaid", ["bridesmaid", "bridesmaids"]),
    ("formal", ["formal", "black tie", "black-tie"]), ("cocktail", ["cocktail"]),
    ("party", ["party"]), ("work", ["work"]), ("office", ["office"]), ("business", ["business"]),
    ("casual", ["casual"]), ("vacation", ["vacation"]), ("beach", ["beach"]),
    ("date night", ["date night", "date-night"]), ("graduation", ["graduation"])]

def season : Vocabulary :=
  [("spring", ["spring"]), ("summer", ["summer"]), ("fall", ["fall", "autumn"]),
    ("winter", ["winter"])]

def fit : Vocabulary :=
  [("slim", ["slim"]), ("regular", ["regular"]), ("relaxed", ["relaxed"]),
    ("oversized", ["oversized"]), ("tailored", ["tailored"]), ("bodycon", ["bodycon"])]

def silhouette : Vocabulary :=
  [("a-line", ["a-line", "aline"]), ("wrap", ["wrap"]), ("sheath", ["sheath"]),
    ("fit-and-flare", ["fit-and-flare", "fit & flare"]), ("mermaid", ["mermaid"]),
    ("bodycon", ["bodycon"]), ("shift", ["shift"]), ("straight", ["straight"]),
    ("wide-leg", ["wide-leg"]), ("bootcut", ["bootcut"]), ("skinny", ["skinny"])]

def pattern : Vocabulary :=
  [("solid", ["solid"]), ("striped", ["striped", "stripes"]), ("floral", ["floral"]),
    ("check", ["check", "checked"]), ("plaid", ["plaid"]),
    ("polka", ["polka", "polka dots", "dots"]), ("animal", ["animal"]), ("leopard", ["leopard"]),
    ("houndstooth", ["houndstooth"])]

def material : Vocabulary :=
  [("cotton", ["cotton"]), ("silk", ["silk"]), ("satin", ["satin"]), ("linen", ["linen"]),
    ("denim", ["denim"]), ("knit", ["knit"]), ("wool", ["wool"]), ("leather", ["leather"]),
    ("chiffon", ["chiffon"]), ("cashmere", ["cashmere"]), ("polyester", ["polyester"])]

end Vocabulary

/-- The colors that a mention of pastel stands for. -/
def pastelPalette : List String :=
  ["pastel-pink", "pastel-blue", "pastel-green", "pastel-purple", "pastel-yellow"]

/-- The category names offered when none is chosen. -/
def categoryChips : List String :=
  ["Dresses", "Tops", "Pants", "Shoes", "Accessories"]

end Outfitter.Taxonomy
