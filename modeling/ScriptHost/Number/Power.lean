set_option autoImplicit false

-- The default instance decides where the exponent is a literal.
attribute [instance (high), default_instance 20000] instPowNat
