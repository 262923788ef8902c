/-!
# The version of the library
-/

set_option autoImplicit false

namespace ObjectGraph

def version : String := "0.1.0"

end ObjectGraph
